import StagedLoad.Http.Form

/-!
# Reading forms

The body of a form is cut at its boundary; each part says in its first lines what it is, and
holds what follows the first empty line.

## Main definitions

* `FormReader.cut?` — the first occurrence of a byte sequence.
* `FormReader.sections?` — the parts of a body, as they stand between the boundaries.
* `FormPart`, `FormPart.ofBytes?` — a part and what it says of itself.
* `FormReader.parts?`, `Form.decode?` — all parts of a body, and the form they make up.
-/

namespace StagedLoad

/-- A part of a form. -/
structure FormPart where
  /-- The field that it fills. -/
  name : Option String
  /-- What the file is called, if it is one. -/
  filename : Option String
  /-- What it holds, if it says so. -/
  contentType : Option String
  /-- Its bytes. -/
  data : Bytes
  deriving DecidableEq, Repr, Inhabited

namespace FormReader

/-- What stands before and behind the first occurrence of a byte sequence. -/
def cut? (pattern : Bytes) : Bytes → Option (Bytes × Bytes)
  | [] => if pattern.isEmpty then some ([], []) else none
  | b :: rest =>
    if pattern.isPrefixOf (b :: rest) then some ([], (b :: rest).drop pattern.length)
    else (cut? pattern rest).map fun (l, r) => (b :: l, r)

theorem length_cut?_snd {pattern l : Bytes} {r : Bytes × Bytes} (h : cut? pattern l = some r)
    (hp : pattern ≠ []) : r.2.length < l.length := by
  induction l generalizing r with
  | nil =>
    unfold cut? at h
    split at h
    · rename_i he
      exact absurd (List.isEmpty_iff.mp he) hp
    · exact absurd h (by simp)
  | cons b rest ih =>
    unfold cut? at h
    split at h
    · obtain rfl := Option.some.inj h
      have : 0 < pattern.length := List.length_pos_iff.mpr hp
      simp only [List.length_drop, List.length_cons]
      omega
    · obtain ⟨⟨before, after⟩, hx, rfl⟩ := Option.map_eq_some_iff.mp h
      have hlt := ih hx
      exact Nat.lt_succ_of_lt hlt

/-- A line end. -/
def lineEnd : Bytes := [13, 10]

/-- Two dashes. -/
def dashes : Bytes := [45, 45]

/-- The parts behind a boundary: a line end and a part up to the next boundary, or two dashes
and no more parts. -/
def sections? (boundary : Bytes) (l : Bytes) : Option (List Bytes) :=
  if dashes.isPrefixOf l then some []
  else if lineEnd.isPrefixOf l then
    match _hcut : cut? (lineEnd ++ dashes ++ boundary) (l.drop lineEnd.length) with
    | none => none
    | some (data, rest) => (sections? boundary rest).map (data :: ·)
  else none
  termination_by l.length
  decreasing_by
    have := length_cut?_snd _hcut (by simp [lineEnd])
    simp only [List.length_drop] at this
    omega

/-- The characters of a quoted text up to its closing quote, and what follows; a backslash
makes the next character stand for itself. -/
def unquote : List Char → Option (List Char × List Char)
  | [] => none
  | '"' :: rest => some ([], rest)
  | '\\' :: c :: rest => (unquote rest).map fun (s, r) => (c :: s, r)
  | c :: rest => (unquote rest).map fun (s, r) => (c :: s, r)

/-- The parameters behind the first word of a header, as names with values; `fuel` bounds
their number. -/
def parameters : (fuel : Nat) → List Char → List (String × String)
  | 0, _ => []
  | fuel + 1, cs =>
    let cs := cs.dropWhile fun c => c == ';' || c == ' '
    let name := cs.takeWhile fun c => c != '=' && c != ';'
    match cs.dropWhile fun c => c != '=' && c != ';' with
    | '=' :: '"' :: rest =>
      match unquote rest with
      | some (value, rest) => (String.ofList name, String.ofList value) :: parameters fuel rest
      | none => []
    | '=' :: rest =>
      (String.ofList name, String.ofList (rest.takeWhile (· != ';'))) ::
        parameters fuel (rest.dropWhile (· != ';'))
    | ';' :: rest => parameters fuel rest
    | _ => []

/-- The value of a parameter. -/
def parameter? (name : String) (cs : List Char) : Option String :=
  ((parameters cs.length (cs.dropWhile (· != ';'))).find? fun p => p.1 == name).map Prod.snd

/-- The lines of a head. -/
def lines (l : Bytes) : List Bytes :=
  match _hcut : cut? lineEnd l with
  | none => [l]
  | some (line, rest) => line :: lines rest
  termination_by l.length
  decreasing_by exact length_cut?_snd _hcut (by simp [lineEnd])

/-- A header as the name in lower case and the value without blanks around it. -/
def header? (line : Bytes) : Option (String × List Char) := do
  let text ← line.toString?
  let cs := text.toList
  let blank (c : Char) : Bool := c == ' ' || c == '\t'
  match cs.dropWhile (· != ':') with
  | [] => none
  | _ :: value =>
    let trimmed := ((value.dropWhile blank).reverse.dropWhile blank).reverse
    return (Header.lower (String.ofList (cs.takeWhile (· != ':'))), trimmed)

end FormReader

/-- What a part says of itself and holds. -/
def FormPart.ofBytes? (l : Bytes) : Option FormPart := do
  let (head, data) ← FormReader.cut? (FormReader.lineEnd ++ FormReader.lineEnd) l
  let headers ← (FormReader.lines head).mapM FormReader.header?
  let value (name : String) : Option (List Char) :=
    (headers.find? fun h => h.1 == name).map Prod.snd
  let disposition := (value "content-disposition").getD []
  return {
    name := FormReader.parameter? "name" disposition
    filename := FormReader.parameter? "filename" disposition
    contentType := (value "content-type").map String.ofList
    data }

/-- The boundary that the announcement of a form names. -/
def FormReader.boundary? (contentType : String) : Option String :=
  let cs := contentType.toList
  if Header.lower (String.ofList (cs.takeWhile (· != ';'))) = "multipart/form-data" then
    FormReader.parameter? "boundary" cs
  else none

/-- The parts of a body. -/
def FormReader.parts? (boundary : Bytes) (body : Bytes) : Option (List FormPart) := do
  let (_, rest) ← FormReader.cut? (FormReader.dashes ++ boundary) body
  let sections ← FormReader.sections? boundary rest
  sections.mapM FormPart.ofBytes?

/-- The form that parts make up: those without a file name are text fields. -/
def Form.ofParts? (parts : List FormPart) : Option Form := do
  let fields ← (parts.filter fun p => p.filename.isNone).mapM fun p => do
    let name ← p.name
    let value ← p.data.toString?
    return (name, value)
  let files ← (parts.filter fun p => p.filename.isSome).mapM fun p => do
    let field ← p.name
    let filename ← p.filename
    let contentType ← p.contentType
    return { field, filename, contentType, data := p.data : FilePart }
  return { fields, files }

/-- The form of a body, given how it is announced. -/
def Form.decode? (contentType : String) (body : Bytes) : Option Form := do
  let boundary ← FormReader.boundary? contentType
  let parts ← FormReader.parts? (Bytes.ofString boundary) body
  Form.ofParts? parts

end StagedLoad
