/-!
# JSON numbers

**Input:** a number as it is written (`Numeral`).

**Results:** its value (`Number`): a whole number of at most sixty-four bits where neither point nor
exponent is written, else a double.  A double is read by collecting leading digits as long as they
fit sixty-four bits and scaling by a power of ten, so its last bit may be one off the nearest
double; a number beyond the largest double has no value.
-/

namespace ApiContract
namespace Json

/-- A number as it is written. -/
structure Numeral where
  /-- Whether a minus stands in front. -/
  negative : Bool
  /-- Digits before the point. -/
  whole : List Char
  /-- Digits after the point; empty if there is no point. -/
  fraction : List Char
  /-- The exponent, if one is written. -/
  exponent : Option Int
deriving DecidableEq, Inhabited

/-- The value of a number. -/
inductive Number
  /-- A whole number. -/
  | whole (n : Int)
  /-- A double. -/
  | real (x : Float)
deriving Inhabited

namespace Numeral

/-- Extends a number by leading digits as long as it stays below `2 ^ 64`; also gives how many
digits were taken. -/
def collect : Nat → List Char → Nat × Nat
  | n, [] => (n, 0)
  | n, c :: cs =>
    let next := n * 10 + (c.toNat - 48)
    if next < Nat.pow 2 64 then
      let (m, taken) := collect next cs
      (m, taken + 1)
    else (n, 0)

/-- Scales a double by a power of ten, in steps no larger than `10 ^ 308`. -/
def scale : Nat → Float → Int → Option Float
  | 0, x, _ => some x
  | steps + 1, x, e =>
    if e.natAbs ≤ 308 then
      let power := Float.ofScientific 1 false e.natAbs
      if e ≥ 0 then
        let y := x * power
        if y.isInf then none else some y
      else some (x / power)
    else if x == 0.0 then some x
    else if e > 0 then none
    else scale steps (x / Float.ofScientific 1 false 308) (e + 308)

/-- The double of a number. -/
def real? (n : Numeral) : Option Float :=
  let (m, taken) := collect 0 n.whole
  let (m, after) := collect m n.fraction
  let e : Int := (n.whole.length - taken : Nat) - (after : Int) + n.exponent.getD 0
  (scale 4 (Float.ofNat m) e).map fun x => if n.negative then -x else x

/-- The value of a number, if it has one. -/
def value? (n : Numeral) : Option Number :=
  let (m, taken) := collect 0 n.whole
  if n.fraction.isEmpty && n.exponent.isNone && taken == n.whole.length then
    if !n.negative then some (.whole m)
    else if 0 < m ∧ m ≤ Nat.pow 2 63 then some (.whole (-m))
    else some (.real (-(Float.ofNat m)))
  else n.real?.map .real

/-- The written form of a whole number. -/
def ofInt (n : Int) : Numeral :=
  ⟨n < 0, Nat.toDigits 10 n.natAbs, [], none⟩

/-- The characters of a number that has neither point nor exponent. -/
def plainChars (n : Numeral) : List Char :=
  if n.negative then '-' :: n.whole else n.whole

end Numeral
end Json
end ApiContract
