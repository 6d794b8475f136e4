import ApiContract.Decimal.Nearest
import ApiContract.Decimal.Whole
import ApiContract.Descriptor

/-!
# Scalar values in texts

A parameter, a header field and a form field are texts that may stand for a scalar value.

**Results:** one reader for each scalar type (`readInt?` and its siblings), which gives `none` for a
text that stands for no value of the type, and `Scalar.read?`, which chooses the reader by the type.
-/

namespace ApiContract

/-- A scalar value. -/
inductive Scalar
  | whole (n : Int)
  | real (x : Float)
  | text (s : String)
  | flag (b : Bool)
deriving Inhabited

namespace Scalar

/-- Reads a whole number of thirty-two bits. -/
def readInt? (s : String) : Option Int :=
  Decimal.signedBits? 32 s.toList

/-- Reads a whole number of sixty-four bits. -/
def readLong? (s : String) : Option Int :=
  Decimal.signedBits? 64 s.toList

/-- Reads a floating point number. -/
def readReal? (s : String) : Option Float :=
  Decimal.real? s.toList

/-- Reads a truth value, which is exactly `true` or `false`. -/
def readFlag? (s : String) : Option Bool :=
  if s = "true" then some true else if s = "false" then some false else none

/-- Reads any text. -/
def readText? (s : String) : Option String :=
  some s

/-- Reads a value of a scalar type. -/
def read? (p : Primitive) (s : String) : Option Scalar :=
  match p with
  | .int => (readInt? s).map .whole
  | .int64 => (readLong? s).map .whole
  | .float => (readReal? s).map .real
  | .boolean => (readFlag? s).map .flag
  | .string => (readText? s).map .text

end Scalar
end ApiContract
