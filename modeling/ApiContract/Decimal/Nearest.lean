/-!
# The double nearest to a decimal

**Input:** a decimal `m · 10 ^ e` of any size.

**Results:** the IEEE double nearest to it, a tie going to the even significand, with gradual
underflow and overflow to infinity.  All comparisons are made in exact natural arithmetic.
-/

namespace ApiContract
namespace Decimal

/-- Quotient rounded to the nearest natural number, a tie to the even one. -/
def divNearest (num den : Nat) : Nat :=
  let q := num / den
  let r := num % den
  if 2 * r > den ∨ (2 * r = den ∧ q % 2 = 1) then q + 1 else q

/-- Number of binary digits. -/
def bitLength (n : Nat) : Nat :=
  if n = 0 then 0 else n.log2 + 1

/-- The double nearest to the positive quotient `num / den`, as its bits. -/
def nearestBits (num den : Nat) : Nat :=
  -- binary exponent of a significand of 53 bits, at least the one of subnormal numbers
  let guess : Int := (bitLength num : Int) - bitLength den - 53
  let scaled (q : Int) : Nat :=
    if q ≥ 0 then divNearest num (den * Nat.pow 2 q.toNat)
    else divNearest (num * Nat.pow 2 (-q).toNat) den
  let exact (q : Int) : Nat :=
    if q ≥ 0 then num / (den * Nat.pow 2 q.toNat) else (num * Nat.pow 2 (-q).toNat) / den
  let q₀ := if exact guess ≥ Nat.pow 2 53 then guess + 1
    else if exact guess < Nat.pow 2 52 then guess - 1 else guess
  let q := max q₀ (-1074)
  let m := scaled q
  -- a significand of 2^53 carries into the exponent by itself
  let bits := (q + 1074).toNat * Nat.pow 2 52 + m
  min bits (0x7ff0000000000000)

/-- The double nearest to `m · 10 ^ e`. -/
def nearest (negative : Bool) (m : Nat) (e : Int) : Float :=
  let size : Int := (Nat.toDigits 10 m).length
  let bits :=
    if m = 0 ∨ e + size < -330 then 0
    else if e + size > 310 then 0x7ff0000000000000
    else if e ≥ 0 then nearestBits (m * Nat.pow 10 e.toNat) 1
    else nearestBits m (Nat.pow 10 (-e).toNat)
  Float.ofBits (UInt64.ofNat (if negative then bits + Nat.pow 2 63 else bits))

/-! ## Reading -/

/-- Splits off the leading ASCII digits. -/
def spanDigits (s : List Char) : List Char × List Char :=
  (s.takeWhile Char.isDigit, s.dropWhile Char.isDigit)

/-- Value of a text of decimal digits. -/
def valueOfDigits (s : List Char) : Nat :=
  s.foldl (fun n c => n * 10 + (c.toNat - 48)) 0

/-- An exponent part: a sign and at least one digit, up to the end. -/
def exponent? : List Char → Option Int
  | [] => some 0
  | c :: cs =>
    if c = 'e' ∨ c = 'E' then
      let (negative, ds) :=
        match cs with
        | '-' :: ds => (true, ds)
        | '+' :: ds => (false, ds)
        | ds => (false, ds)
      if ds.isEmpty ∨ !ds.all Char.isDigit then none
      else some (if negative then -(valueOfDigits ds : Int) else valueOfDigits ds)
    else none

/-- An unsigned floating point number: digits with an optional point on either side, and an
optional exponent. -/
def unsignedReal? (negative : Bool) (s : List Char) : Option Float :=
  let (whole, rest) := spanDigits s
  let (fraction, rest) :=
    match rest with
    | '.' :: more => spanDigits more
    | _ => ([], rest)
  if whole.isEmpty ∧ fraction.isEmpty then none
  else
    (exponent? rest).map fun e =>
      nearest negative (valueOfDigits (whole ++ fraction)) (e - fraction.length)

/-- A floating point number in any of its spellings, the names of infinity and of not-a-number in
any letter case included. -/
def real? (s : List Char) : Option Float :=
  let (negative, body) :=
    match s with
    | '-' :: cs => (true, cs)
    | '+' :: cs => (false, cs)
    | cs => (false, cs)
  let name := String.ofList (body.map Char.toLower)
  if name = "inf" ∨ name = "infinity" then
    some (Float.ofBits (if negative then 0xfff0000000000000 else 0x7ff0000000000000))
  else if name = "nan" then some (Float.ofBits 0x7ff8000000000000)
  else unsignedReal? negative body

end Decimal
end ApiContract
