import ApiContract.Disk.Basic
import ApiContract.Service.HandlerError

/-!
# Writing responses

A response is written in steps: its status, header fields, and then its body.

**Results:** `ofCode` accepts the statuses of three digits, `setHeader` puts a value in place of an
earlier one of the same name or leaves the writer as it is, and `empty`, `json` and `file` finish
the response; the latter two fix its content type.
-/

namespace ApiContract

/-- A response whose body has not been written yet. -/
structure ResponseWriter where
  status : Nat
  headers : Headers := {}
deriving DecidableEq, Inhabited

namespace ResponseWriter

/-- Begins a response. -/
def ofCode (code : Int) : Except HandlerError ResponseWriter :=
  if 100 ≤ code ∧ code < 1000 then .ok { status := code.toNat } else .error (.invalidStatus code)

/-- A step that changes a writer and may fail on the way. -/
abbrev Writing := ExceptT HandlerError (StateM ResponseWriter)

/-- Writes a header field into the writer that is there. -/
def setHeader (name value : String) : Writing Unit := do
  if (Headers.name? name).isNone then
    throw (.invalidHeader name)
  if !Headers.isValue value.toUTF8 then
    throw (.invalidHeader name)
  modify fun w => { w with headers := w.headers.insert name value.toUTF8 }

/-- Writes a header field: the writer with it. -/
def header (w : ResponseWriter) (name value : String) : Except HandlerError ResponseWriter :=
  let (result, w) := ((setHeader name value).run).run w
  result.map fun () => w

/-- A field is written if its name is one of a header field and its text a value of one. -/
theorem header_eq (w : ResponseWriter) (name value : String) : w.header name value =
    match Headers.name? name with
    | none => .error (.invalidHeader name)
    | some _ =>
      if Headers.isValue value.toUTF8 then
        .ok { w with headers := w.headers.insert name value.toUTF8 }
      else .error (.invalidHeader name) := by
  unfold header setHeader
  cases Headers.name? name with
  | none => rfl
  | some _ =>
      cases Headers.isValue value.toUTF8 with
      | false => rfl
      | true => rfl

/-- Writes a header field unless there is no value. -/
def headerIfGiven (w : ResponseWriter) (name : String) (value : Option String) :
    Except HandlerError ResponseWriter :=
  match value with
  | some v => w.header name v
  | none => .ok w

/-- A response without a body. -/
def empty (w : ResponseWriter) : Response :=
  { status := w.status, headers := w.headers }

/-- A response with a body of the given content type. -/
def withBody (w : ResponseWriter) (contentType : String) (body : ByteArray) : Response :=
  { status := w.status, headers := w.headers.insert "content-type" contentType.toUTF8, body }

/-- A response with JSON; `none` is a value that has no JSON text. -/
def json (w : ResponseWriter) (value : Option Json.Value) : Except HandlerError Response :=
  match value with
  | some v => .ok (w.withBody "application/json" v.compact.toUTF8)
  | none => .error (.serialize "key must be a string")

/-- A response with the content of a file. -/
def file (w : ResponseWriter) (d : Disk) (path : FilePath) : Except HandlerError Response :=
  match d.read path with
  | .ok content => .ok (w.withBody "application/octet-stream" content)
  | .error fault => .error (.io fault.message)

end ResponseWriter
end ApiContract
