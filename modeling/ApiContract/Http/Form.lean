import ApiContract.Text.Percent
import ApiContract.Text.Pieces

/-!
# Form fields in bytes

**Input:** the bytes of a form: names and values joined by `=`, and the pairs by `&`.

**Results:** the fields in their order.  A plus sign stands for a space, bytes may be
percent-encoded, and a pair without `=` is a name with an empty value.
-/

namespace ApiContract

/-- Names and values in their order. -/
abbrev Form := List (String × String)

namespace Form

/-- The text that encoded bytes stand for. -/
def decode (s : List UInt8) : String :=
  let plain (b : UInt8) : UInt8 := if b = 43 then 32 else b
  Text.Utf8.decode (Bytes.ofList (Text.Percent.decodeOnto plain [] s))

/-- The field of a piece. -/
def field (piece : List UInt8) : String × String :=
  let (name, value) := Text.cut (· = 61) piece
  (decode name, decode (value.getD []))

/-- The fields of bytes; empty pieces are none. -/
def ofBytes (s : List UInt8) : Form :=
  ((Text.pieces (· = 38) s).filter (!·.isEmpty)).map field

/-- The first value of a name. -/
def get? (f : Form) (name : String) : Option String :=
  f.lookup name

end Form
end ApiContract
