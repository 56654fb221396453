import StagedLoad.Http.Message

/-!
# Forms with files

A form is sent as a body of parts: first its text fields, then its files.  Every part has a
line that says what it is, and between the parts stands a boundary, always the same, so that
equal forms have equal bodies.

## Main definitions

* `FilePart`, `Form` — the forms.
* `Form.encode`, `Form.contentType` — the body and how it is announced.
* `FilePart.ofPath` — a part that is read from a file.
-/

namespace StagedLoad

/-- A file in a form. -/
structure FilePart where
  /-- The field that it fills. -/
  field : String
  /-- What the file is called. -/
  filename : String
  /-- What it holds. -/
  contentType : String
  /-- Its bytes. -/
  data : Bytes
  deriving DecidableEq, Repr, Inhabited

/-- A form. -/
structure Form where
  /-- The text fields and their values. -/
  fields : List (String × String) := []
  /-- The files. -/
  files : List FilePart := []
  deriving DecidableEq, Repr, Inhabited

namespace Form

/-- What stands between the parts, after two dashes. -/
def boundary : String := "----rampr-multipart-boundary-7MA4YWxkTrZu0gW"

/-- How a form is announced. -/
def contentType : String := "multipart/form-data; boundary=" ++ boundary

/-- A text inside quotes: backslashes and quotes have a backslash in front of them. -/
def escapeChars : List Char → List Char
  | [] => []
  | c :: cs => if c = '\\' ∨ c = '"' then '\\' :: c :: escapeChars cs else c :: escapeChars cs

/-- A text inside quotes. -/
def escape (s : String) : String := String.ofList (escapeChars s.toList)

/-- A line end. -/
def lineEnd : String := "\r\n"

/-- The line in front of a part. -/
def opening : String := "--" ++ boundary ++ lineEnd

/-- The line behind the last part. -/
def closing : String := "--" ++ boundary ++ "--" ++ lineEnd

/-- What a text field says of itself. -/
def fieldHead (name : String) : String :=
  "Content-Disposition: form-data; name=\"" ++ escape name ++ "\"" ++ lineEnd ++ lineEnd

/-- What a file says of itself. -/
def fileHead (f : FilePart) : String :=
  "Content-Disposition: form-data; name=\"" ++ escape f.field ++ "\"; filename=\"" ++
    escape f.filename ++ "\"" ++ lineEnd ++ "Content-Type: " ++ f.contentType ++ lineEnd ++ lineEnd

/-- One part: what it says of itself, and what it holds. -/
def part (head : String) (data : Bytes) : Bytes :=
  Bytes.ofString opening ++ Bytes.ofString head ++ data ++ Bytes.ofString lineEnd

/-- The parts of a form: what each says of itself, and what it holds. -/
def parts (f : Form) : List (String × Bytes) :=
  (f.fields.map fun (name, value) => (fieldHead name, Bytes.ofString value)) ++
    f.files.map fun file => (fileHead file, file.data)

/-- The body of a form. -/
def encode (f : Form) : Bytes :=
  (f.parts.flatMap fun (head, data) => part head data) ++ Bytes.ofString closing

end Form

namespace FilePart

/-- What the files with a given ending hold. -/
def knownTypes : List (String × String) :=
  [("jpg", "image/jpeg"), ("jpeg", "image/jpeg"), ("png", "image/png"), ("gif", "image/gif"),
    ("json", "application/json"), ("txt", "text/plain")]

/-- What stands behind the last point of a name; nothing if there is no point. -/
def nameEnding (name : String) : String :=
  let cs := name.toList
  if cs.contains '.' then String.ofList (cs.reverse.takeWhile (· != '.')).reverse else ""

/-- What a file holds, judged by its name. -/
def guessType (name : String) : String :=
  ((knownTypes.find? fun t => t.1 == Header.lower (nameEnding name)).map Prod.snd).getD
    "application/octet-stream"

/-- A part that is read from a file.  It is called what the path ends in and holds what the
name says, unless told otherwise. -/
def ofPath {m : Type → Type} [Monad m] (read : FileReader m) (field path : String)
    (filename contentType : Option String) : m (Except TransportFault FilePart) := do
  match ← read path with
  | .error f => return .error (.fixture path f)
  | .ok data =>
    let filename := filename.getD ((FilePath.name? path).getD "file")
    return .ok ⟨field, filename, contentType.getD (guessType filename), data⟩

end FilePart

end StagedLoad
