import ApiContract.Node.Basic
import ApiContract.Service.BodyError
import ApiContract.Text.Utf8

/-!
# Bodies that are read whole

**Input:** the body of a request.

**Results:** the value that its JSON text stands for, or the fields of its form.  A body larger than
`Body.sizeLimit` is not read.
-/

namespace ApiContract
namespace Body

/-- How many bytes of a body are read. -/
def sizeLimit : Nat :=
  32 * 1024 * 1024

/-- The bytes of a body that is not too large. -/
def bytes (body : ByteArray) : Except BodyError ByteArray :=
  if body.size > sizeLimit then .error (.read "length limit exceeded") else .ok body

/-- What stands in a JSON text for bytes that are no character: half of a surrogate pair, between
letters.  A string with it has no text, and nowhere else can it stand, not behind a backslash
either. -/
def noCharacter : List Char :=
  "x\\ud800x".toList

/-- The JSON text of bytes.  As long as nobody reads them, strings need not be UTF-8. -/
def jsonText (b : ByteArray) : String :=
  Text.Utf8.decodeWith noCharacter b

/-- The value that a JSON text stands for, given how it is read. -/
def json {α : Type} (read : Nat → Node → Option α) (body : ByteArray) : Except BodyError α := do
  let b ← bytes body
  let value := do
    let t ← Json.Tree.parse? (jsonText b)
    read Json.depthLimit (Node.ofTree t)
  match value with
  | some a => return a
  | none => throw (.json "invalid value")

/-- The fields of a form. -/
def form (body : ByteArray) : Except BodyError Form := do
  return Form.ofBytes (Bytes.toList (← bytes body))

/-- What is known of a media type that is declared but not read. -/
def unsupported {α : Type} (mime : String) : Except BodyError α :=
  .error (.unsupportedMediaType mime)

end Body
end ApiContract
