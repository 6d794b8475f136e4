/-!
# Bytes

Sequences of bytes as lists, on which everything that looks into them is defined, and as arrays, in
which they are kept.

**Results:** `Bytes.toList` and `Bytes.ofList` undo each other.
-/

namespace ApiContract
namespace Bytes

-- Byte arrays are compared by the instance of the core library, whatever else is imported.
instance (priority := 2000) decidableEq : DecidableEq ByteArray :=
  ByteArray.instDecidableEq

/-- Bytes as a list. -/
def toList (b : ByteArray) : List UInt8 :=
  b.data.toList

/-- Bytes from a list. -/
def ofList (s : List UInt8) : ByteArray :=
  ⟨s.toArray⟩

/-- The bytes of characters. -/
def ofChars (s : List Char) : List UInt8 :=
  toList (String.ofList s).toUTF8

/-- The text of bytes, if they are UTF-8. -/
def text? (s : List UInt8) : Option String :=
  String.fromUTF8? (ofList s)

theorem ofList_toList (b : ByteArray) : ofList (toList b) = b :=
  rfl

end Bytes
end ApiContract
