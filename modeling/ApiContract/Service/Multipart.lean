import ApiContract.Disk.Temporary
import ApiContract.Http.Multipart
import ApiContract.Service.BodyError
import ApiContract.Service.Cleanup

/-!
# Reading multipart forms

**Input:** the parts of a multipart body.

**Results:** text fields are read like those of any form, and need not touch the disk; a file is
stored under a new name, and its removal is registered before its content is written.
-/

namespace ApiContract

/-- A disk, and what is to be done when the request is done. -/
structure Workspace where
  disk : Disk
  registry : Cleanup.Registry := {}
deriving Inhabited

/-- A file that was received. -/
structure UploadedFile where
  /-- The name that the client gave it, or else the name of the field. -/
  name : String
  /-- Where it is stored. -/
  path : FilePath
  contentType : String
deriving DecidableEq, Inhabited

/-- The parts of a multipart body. -/
abbrev MultipartForm := List Part

namespace MultipartForm

variable {α : Type}

/-- The first part of a name. -/
def part? (f : MultipartForm) (name : String) : Option Part :=
  f.find? (·.name == name)

/-- The text of a field. -/
def text (f : MultipartForm) (name : String) : Except BodyError (Option String) :=
  match f.part? name with
  | none => .ok none
  | some p =>
    match String.fromUTF8? p.data with
    | some s => .ok (some s)
    | none => .error (.invalidField name)

/-- Reads a field that may be absent. -/
def optional (f : MultipartForm) (name : String) (read : String → Option α) :
    Except BodyError (Option α) :=
  match f.text name with
  | .ok raw => Form.readOptional name raw read
  | .error e => .error e

/-- Reads a field that must be given. -/
def required (f : MultipartForm) (name : String) (read : String → Option α) :
    Except BodyError α :=
  Form.present name (f.optional name read)

/-- The content type of a file that names none. -/
def defaultContentType : String :=
  "application/octet-stream"

/-- Stores the data of a part. -/
def store (w : Workspace) (p : Part) : Workspace × Except BodyError UploadedFile :=
  match w.disk.makeTemporary "part-" ".tmp" with
  | .error fault => (w, .error (.io fault.message))
  | .ok (disk, path) =>
    let registry := w.registry.removeFile path
    match disk.write path p.data with
    | .error fault => (⟨disk, registry⟩, .error (.io fault.message))
    | .ok disk =>
      (⟨disk, registry⟩,
        .ok { name := p.fileName.getD p.name, path
              contentType := p.contentType.getD defaultContentType })

/-- Stores a file that may be absent. -/
def optionalFile (f : MultipartForm) (name : String) (w : Workspace) :
    Workspace × Except BodyError (Option UploadedFile) :=
  match f.part? name with
  | none => (w, .ok none)
  | some p =>
    match store w p with
    | (w, .ok file) => (w, .ok (some file))
    | (w, .error e) => (w, .error e)

/-- Stores a file that must be given. -/
def requiredFile (f : MultipartForm) (name : String) (w : Workspace) :
    Workspace × Except BodyError UploadedFile :=
  let (w, r) := f.optionalFile name w
  (w, Form.present name r)

end MultipartForm
end ApiContract
