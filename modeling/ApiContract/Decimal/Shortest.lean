/-!
# The shortest decimal of a double

**Input:** a finite double, as its bits.

**Results:** the decimal with the fewest significant digits that reads back as the same double; of
two such decimals the nearer one, and of two equally near ones the even one.
-/

namespace ApiContract
namespace Decimal

/-- A positive double as `significand · 2 ^ exponent`. -/
structure Binary where
  /-- Significand, below `2 ^ 53`. -/
  significand : Nat
  /-- Binary exponent, at least `-1074`. -/
  exponent : Int

namespace Binary

/-- Significand and exponent of a double, its sign left out. -/
def ofBits (bits : UInt64) : Binary :=
  let n : Nat := bits.toNat % Nat.pow 2 63
  let e : Nat := n / Nat.pow 2 52
  let f := n % Nat.pow 2 52
  if e = 0 then ⟨f, -1074⟩ else ⟨f + Nat.pow 2 52, Int.ofNat e - 1075⟩

/-- `n · 2 ^ exponent / 4` as a fraction. -/
def quarter (b : Binary) (n : Nat) : Nat × Nat :=
  let q := b.exponent - 2
  if q ≥ 0 then (n * Nat.pow 2 q.toNat, 1) else (n, Nat.pow 2 (-q).toNat)

/-- Whether the decimal `c · 10 ^ k` reads back as the double. -/
def accepts (b : Binary) (c : Nat) (k : Int) : Bool :=
  let m := b.significand
  let lowGap := if m = Nat.pow 2 52 ∧ b.exponent > -1074 then 1 else 2
  let (low, den) := b.quarter (4 * m - lowGap)
  let (high, _) := b.quarter (4 * m + 2)
  let (num, scale) := if k ≥ 0 then (c * Nat.pow 10 k.toNat, 1) else (c, Nat.pow 10 (-k).toNat)
  if m % 2 = 0 then low * scale ≤ num * den && num * den ≤ high * scale
  else low * scale < num * den && num * den < high * scale

/-- The double divided by `10 ^ k`, as a fraction. -/
def ratio (b : Binary) (k : Int) : Nat × Nat :=
  let (num, den) := b.quarter (4 * b.significand)
  if k ≥ 0 then (num, den * Nat.pow 10 k.toNat) else (num * Nat.pow 10 (-k).toNat, den)

/-- The best decimal on the grid of step `10 ^ k`, if one of the double's two neighbours there reads
back. -/
def onGrid? (b : Binary) (k : Int) : Option Nat :=
  let (num, den) := b.ratio k
  let c := num / den
  let r := num % den
  match b.accepts c k, b.accepts (c + 1) k with
  | true, true => some (if 2 * r < den ∨ (2 * r = den ∧ c % 2 = 0) then c else c + 1)
  | true, false => some c
  | false, true => some (c + 1)
  | false, false => none

/-- Number of decimal digits before the point, zero or less for a number below one tenth. -/
def magnitude (b : Binary) : Int :=
  -- an estimate from the binary size, corrected by one comparison on each side
  let bits : Int := (b.significand.log2 : Int) + b.exponent
  let guess := bits * 30103 / 100000
  let atLeast (k : Int) : Bool := let (num, den) := b.ratio k; num ≥ den
  if atLeast (guess + 1) then guess + 2 else if atLeast guess then guess + 1 else guess

end Binary

/-- Tries one more digit at a time. -/
def shortestFrom (b : Binary) (size : Int) : List Nat → Nat × Int
  | [] => (0, 0)
  | n :: more =>
    match b.onGrid? (size - n) with
    | some c => (c, size - n)
    | none => shortestFrom b size more

/-- The shortest decimal `c · 10 ^ k` of a positive double. -/
def shortest (bits : UInt64) : Nat × Int :=
  let b := Binary.ofBits bits
  shortestFrom b b.magnitude ((List.range 17).map (· + 1))

/-- Drops zeros at the end of a number, which raise the exponent instead. -/
def dropZeros : Nat → Nat × Int → Nat × Int
  | 0, d => d
  | fuel + 1, (c, k) => if c ≠ 0 ∧ c % 10 = 0 then dropZeros fuel (c / 10, k + 1) else (c, k)

/-- Significant digits and the place of the point counted from their start. -/
def significant (bits : UInt64) : List Char × Int :=
  let (c, k) := dropZeros 17 (shortest bits)
  let digits := Nat.toDigits 10 c
  (digits, k + digits.length)

end Decimal
end ApiContract
