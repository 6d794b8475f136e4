/-!
# Whole numbers in bounds

Reading of signed and unsigned whole numbers that have to fit a fixed number of bits.  A sign may
stand in front; what follows must be ASCII digits, at least one.
-/

namespace ApiContract
namespace Decimal

/-- Value of an ASCII digit in a radix up to sixteen. -/
def digit? (radix : Nat) (c : Char) : Option Nat :=
  let v? :=
    if c.isDigit then some (c.toNat - 48)
    else if 'a' ≤ c ∧ c ≤ 'f' then some (c.toNat - 87)
    else if 'A' ≤ c ∧ c ≤ 'F' then some (c.toNat - 55)
    else none
  v?.filter (· < radix)

/-- Value of a text of digits, continuing from the value read so far. -/
def digitsFrom? (radix : Nat) : Nat → List Char → Option Nat
  | acc, [] => some acc
  | acc, c :: cs =>
    match digit? radix c with
    | some d => digitsFrom? radix (acc * radix + d) cs
    | none => none

/-- Value of a non-empty text of digits. -/
def digits? (radix : Nat) (s : List Char) : Option Nat :=
  if s.isEmpty then none else digitsFrom? radix 0 s

/-- A signed whole number of unbounded size. -/
def signed? (radix : Nat) : List Char → Option Int
  | '+' :: cs => (digits? radix cs).map Int.ofNat
  | '-' :: cs => (digits? radix cs).map fun n => -(n : Int)
  | cs => (digits? radix cs).map Int.ofNat

/-- An unsigned whole number of unbounded size, which may carry a plus sign. -/
def unsigned? (radix : Nat) : List Char → Option Nat
  | '+' :: cs => digits? radix cs
  | cs => digits? radix cs

/-- An unsigned whole number below `2 ^ bits`. -/
def unsignedBits? (bits : Nat) (s : List Char) : Option Nat :=
  (unsigned? 10 s).filter (· < Nat.pow 2 bits)

/-- Whether a number fits a two's complement word of the given width. -/
def fitsSigned (bits : Nat) (n : Int) : Bool :=
  let bound : Int := Nat.pow 2 (bits - 1)
  n < bound && -bound ≤ n

/-- A signed whole number that fits a word of the given width. -/
def signedBits? (bits : Nat) (s : List Char) : Option Int :=
  (signed? 10 s).filter (fitsSigned bits)

end Decimal
end ApiContract
