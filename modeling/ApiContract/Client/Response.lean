import ApiContract.Client.Error
import ApiContract.Disk.Temporary
import ApiContract.Http.MediaType
import ApiContract.Http.Message
import ApiContract.Text.Utf8

/-!
# Reading responses

**Input:** a response, or its header fields, and a reader for a type.

**Results:** `optionalHeader` and `requiredHeader`, for which an empty value is a value; the error
for a status that is not declared; a body that is kept in a file; and a file that is sent as a part.
-/

namespace ApiContract
namespace Client

variable {α : Type}

/-- Reads a header field that may be absent. -/
def optionalHeader (h : Headers) (name : String) (read : String → Option α) :
    Except ClientError (Option α) :=
  match h.get? name with
  | none => .ok none
  | some v =>
    match (Headers.valueText? v).bind read with
    | some a => .ok (some a)
    | none => .error (.invalidHeader name)

/-- Reads a header field that must be given. -/
def requiredHeader (h : Headers) (name : String) (read : String → Option α) :
    Except ClientError α :=
  match optionalHeader h name read with
  | .ok (some a) => .ok a
  | .ok none => .error (.missingHeader name)
  | .error e => .error e

/-- The error for a response whose status is not declared. -/
def unexpectedStatus (r : Response) : ClientError :=
  .unexpectedStatus r.status (Text.Utf8.decode r.body)

/-- Keeps the body of a response in a new file, which is the caller's. -/
def download (d : Disk) (r : Response) : Except ClientError (Disk × FilePath) :=
  match d.makeTemporary "download-" ".tmp" with
  | .error fault => .error (.io fault.message)
  | .ok (d, path) =>
    match d.write path r.body with
    | .error fault => .error (.io fault.message)
    | .ok d => .ok (d, path)

/-- A file as it is sent in a multipart body. -/
def filePart (d : Disk) (name : String) (path : FilePath) (contentType : String) :
    Except ClientError (String × MediaType × ByteArray) :=
  match d.read path with
  | .error fault => .error (.io fault.message)
  | .ok content =>
    match MediaType.ofText? contentType with
    | some m => .ok (name, m, content)
    | none => .error (.request "builder error")

end Client
end ApiContract
