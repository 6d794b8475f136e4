import ApiContract.Decimal.Nearest
import ApiContract.Decimal.Whole
import ApiContract.Json.Value

/-!
# Plain words

The values that an unquoted word of a document may stand for: nothing, a truth value, a whole number
in one of four radixes, a floating point number, or itself.
-/

namespace ApiContract
namespace Plain

/-- Words for nothing. -/
def isNull (s : String) : Bool :=
  s = "null" || s = "Null" || s = "NULL" || s = "~"

/-- Words for truth values. -/
def flag? (s : String) : Option Bool :=
  if s = "true" ∨ s = "True" ∨ s = "TRUE" then some true
  else if s = "false" ∨ s = "False" ∨ s = "FALSE" then some false
  else none

/-- Whether a word is a group of digits that is no number because it begins with zero. -/
def isZeroLed (s : List Char) : Bool :=
  let digits :=
    match s with
    | '-' :: ds => ds
    | '+' :: ds => ds
    | ds => ds
  match digits with
  | '0' :: d :: ds => (d :: ds).all Char.isDigit
  | _ => false

/-- Whether a text begins with a sign. -/
def isSigned (s : List Char) : Bool :=
  s.head?.any fun c => c = '+' || c = '-'

/-- Digits behind one of the radix marks `0x`, `0o` and `0b`. -/
def marked? : List Char → Option Nat
  | '0' :: 'x' :: ds => Decimal.digits? 16 ds
  | '0' :: 'o' :: ds => Decimal.digits? 8 ds
  | '0' :: 'b' :: ds => Decimal.digits? 2 ds
  | _ => none

/-- The whole number of a word, of any size. -/
def whole? (s : List Char) : Option Int :=
  match s with
  | '-' :: body =>
    match marked? body with
    | some n => some (-n)
    | none => if isZeroLed s then none else (Decimal.digits? 10 body).map fun n => -(n : Int)
  | '+' :: body =>
    if isSigned body then none
    else
      match marked? body with
      | some n => some n
      | none => if isZeroLed s then none else (Decimal.digits? 10 body).map Int.ofNat
  | _ =>
    match marked? s with
    | some n => some n
    | none => if isZeroLed s then none else (Decimal.digits? 10 s).map Int.ofNat

/-- The floating point number of a word. -/
def real? (s : List Char) : Option Float :=
  let body :=
    match s with
    | '+' :: cs => cs
    | cs => cs
  let name := String.ofList body
  let signed := String.ofList s
  if s.head? = some '+' ∧ isSigned body then none
  else if name = ".inf" ∨ name = ".Inf" ∨ name = ".INF" then
    some (Float.ofBits 0x7ff0000000000000)
  else if signed = "-.inf" ∨ signed = "-.Inf" ∨ signed = "-.INF" then
    some (Float.ofBits 0xfff0000000000000)
  else if signed = ".nan" ∨ signed = ".NaN" ∨ signed = ".NAN" then
    some (Float.ofBits 0x7ff8000000000000)
  else (Decimal.real? body).filter Float.isFinite

/-- Whether a whole number can be held: it fits sixty-four bits, signed or unsigned. -/
def isHeld (n : Int) : Bool :=
  -(Nat.pow 2 63 : Int) ≤ n && n < Nat.pow 2 64

/-- Whether a whole number is refused: it needs more than sixty-four bits, but no more than one
hundred and twenty-eight.  Larger ones are read as floating point numbers. -/
def isRefused (n : Int) : Bool :=
  !isHeld n && -(Nat.pow 2 127 : Int) ≤ n && n < Nat.pow 2 128

/-- What a word stands for where any value may stand. -/
inductive Meaning
  | null
  | flag (b : Bool)
  | number (n : Json.Number)
  | text (s : String)
  /-- A number too large to be held. -/
  | refused

/-- The meaning of a word. -/
def meaning (s : String) : Meaning :=
  if s.isEmpty || isNull s then .null
  else
    match flag? s with
    | some b => .flag b
    | none =>
      let real : Meaning :=
        if isZeroLed s.toList then .text s
        else
          match real? s.toList with
          | some x => .number (.real x)
          | none => .text s
      match whole? s.toList with
      | some n =>
        if isHeld n then .number (.whole n) else if isRefused n then .refused else real
      | none => real

end Plain
end ApiContract
