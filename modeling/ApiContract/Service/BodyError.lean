import ApiContract.Http.Form
import ApiContract.Service.RequestError

/-!
# Unreadable bodies

Why the body of a request cannot be read, and how form fields are read.

**Results:** `BodyError.refusal` folds every reason that is not yet a refusal of the request into
the one refusal that the client is told; `Form.optional` and `Form.required` read a field, an empty
one counting as absent.
-/

namespace ApiContract

/-- Why a body cannot be read. -/
inductive BodyError
  | request (e : RequestError)
  /-- The body does not arrive, or is too large. -/
  | read (detail : String)
  | json (detail : String)
  | missingField (name : String)
  | invalidField (name : String)
  | multipart (detail : String)
  /-- The media type is declared, but bodies of it are not read. -/
  | unsupportedMediaType (mime : String)
  | io (detail : String)
deriving DecidableEq, Inhabited

namespace BodyError

/-- The wording of a reason. -/
def message : BodyError → String
  | request e => e.message
  | read detail => "Failed to read request body: " ++ detail
  | json detail => "JSON decode error: " ++ detail
  | missingField name => s!"Missing form field '{name}'"
  | invalidField name => s!"Invalid form field '{name}'"
  | multipart detail => "Multipart error: " ++ detail
  | unsupportedMediaType mime => "Unsupported media type: " ++ mime
  | io detail => "I/O error: " ++ detail

/-- What the client is told. -/
def refusal : BodyError → RequestError
  | request e => e
  | _ => .illegalBody

end BodyError

namespace Form

variable {α : Type}

/-- Reads the text of a field that may be absent. -/
def readOptional (name : String) (raw : Option String) (read : String → Option α) :
    Except BodyError (Option α) :=
  match raw with
  | none => .ok none
  | some s =>
    if s = "" then .ok none
    else
      match read s with
      | some a => .ok (some a)
      | none => .error (.invalidField name)

/-- What was read of a field that must be given. -/
def present (name : String) : Except BodyError (Option α) → Except BodyError α
  | .ok (some a) => .ok a
  | .ok none => .error (.missingField name)
  | .error e => .error e

/-- Reads a field that may be absent. -/
def optional (f : Form) (name : String) (read : String → Option α) :
    Except BodyError (Option α) :=
  readOptional name (f.get? name) read

/-- Reads a field that must be given. -/
def required (f : Form) (name : String) (read : String → Option α) : Except BodyError α :=
  present name (f.optional name read)

end Form
end ApiContract
