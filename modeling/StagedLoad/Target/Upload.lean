import StagedLoad.Http.FormReader

/-!
# Uploads

The body of an upload is read part by part, and it may turn out at any part that it cannot be read
on.  So what has been seen is only kept in mind until the body has ended.

## Main definitions

* `UploadBody` — a body as it is read.
* `UploadReader`, `UploadReader.forms` — how bodies are read, and the reader of forms.
* `Upload` — what has been seen of an upload.
* `Upload.read` — what is seen of a whole body.
-/

namespace StagedLoad

/-- The body of an upload as it is read. -/
inductive UploadBody
  /-- It has ended. -/
  | ended
  /-- It cannot be read on, for the given reason. -/
  | broken (reason : String)
  /-- A part has been read, and more may follow. -/
  | part (p : FormPart) (rest : UploadBody)
  deriving DecidableEq, Repr, Inhabited

/-- The body that has some parts and then ends. -/
def UploadBody.ofParts (parts : List FormPart) : UploadBody := parts.foldr .part .ended

/-- How uploads are read. -/
structure UploadReader where
  /-- The boundary that the announcement of a body names. -/
  boundary? : String → Option String
  /-- A body with a given boundary. -/
  body : String → Bytes → UploadBody

namespace UploadReader

/-- The greatest number of bytes in an upload. -/
def greatestBody : Nat := 2 * 1024 * 1024

/-- Why a form cannot be read. -/
def malformed : String := "Error parsing `multipart/form-data` request"

/-- Reads forms that are not too long. -/
def forms : UploadReader where
  boundary? := FormReader.boundary?
  body boundary bytes :=
    if greatestBody < bytes.length then .broken malformed
    else match FormReader.parts? (Bytes.ofString boundary) bytes with
      | none => .broken malformed
      | some parts => .ofParts parts

end UploadReader

/-- A file that has been seen. -/
structure UploadedFile where
  /-- What it is called. -/
  filename : Option String
  /-- How many bytes it has. -/
  size : Nat
  deriving DecidableEq, Repr, Inhabited

/-- What has been seen of an upload. -/
structure Upload where
  /-- Where it shall be put. -/
  bucket : Option String := none
  /-- The file. -/
  file : Option UploadedFile := none
  deriving DecidableEq, Repr, Inhabited

namespace Upload

/-- One part more: a later part under the same name counts in place of an earlier one. -/
def see (u : Upload) (p : FormPart) : Upload :=
  if p.name = some "file" then { u with file := some ⟨p.filename, p.data.length⟩ }
  else if p.name = some "bucket" then { u with bucket := some p.data.toStringLossy }
  else u

/-- What is seen of a whole body, or why it cannot be read. -/
def read (u : Upload) : UploadBody → Except String Upload
  | .ended => .ok u
  | .broken reason => .error reason
  | .part p rest => (u.see p).read rest

end Upload

end StagedLoad
