/-!
# Texts in letters, digits and hyphens

**Input:** a text of any characters.

**Algorithm.** The ASCII characters are written first, in their order.  The other characters are
then taken in the order of their code points, and for each the number of positions passed since the
last one is written as a number of variable length, the digits of which depend on a bias that
follows the numbers written so far.

**Results:** `Punycode.encode` gives a text of ASCII characters only, without the mark that tells a
host name from others.
-/

namespace ApiContract
namespace Text
namespace Punycode

/-- A digit in base thirty-six: letters first. -/
def digitChar (d : Nat) : Char :=
  if d < 26 then Char.ofNat (97 + d) else Char.ofNat (22 + d)

/-- The least value that a digit at a place must have if more digits follow. -/
def threshold (bias place : Nat) : Nat :=
  max 1 (min 26 (place - bias))

theorem threshold_bounds (bias place : Nat) :
    1 ≤ threshold bias place ∧ threshold bias place ≤ 26 := by
  unfold threshold
  omega

/-- The digits of a number from a place on. -/
def digits (bias place n : Nat) : List Char :=
  let t := threshold bias place
  if n < t then [digitChar n]
  else digitChar (t + (n - t) % (36 - t)) :: digits bias (place + 36) ((n - t) / (36 - t))
termination_by n
decreasing_by
  have h := threshold_bounds bias place
  have := Nat.div_le_self (n - threshold bias place) (36 - threshold bias place)
  omega

/-- The bias that a scaled number gives, with what larger numbers add to it. -/
def biasOf (added n : Nat) : Nat :=
  if 455 < n then biasOf (added + 36) (n / 35) else added + 36 * n / (n + 38)
termination_by n
decreasing_by omega

/-- The bias after a number is written, which made the text `size` characters long. -/
def adapted (n size : Nat) (isFirst : Bool) : Nat :=
  let scaled := if isFirst then n / 700 else n / 2
  biasOf 0 (scaled + scaled / size)

/-- What has been written, and what the next number depends on. -/
structure Progress where
  /-- Digits in reverse order. -/
  written : List Char
  /-- Positions passed since the last number. -/
  passed : Nat
  bias : Nat
  /-- How many characters of the text are written. -/
  size : Nat
  /-- Whether a number has been written. -/
  isBegun : Bool

/-- Passes a character of the text while those with the code point `m` are written. -/
def Progress.pass (m : Nat) (p : Progress) (c : Char) : Progress :=
  if c.toNat < m then { p with passed := p.passed + 1 }
  else if c.toNat = m then
    { written := (digits p.bias 36 p.passed).reverse ++ p.written
      passed := 0
      bias := adapted p.passed (p.size + 1) !p.isBegun
      size := p.size + 1
      isBegun := true }
  else p

/-- Writes the characters with the given code points, of which `next` is the least that may
occur. -/
def writeFrom (s : List Char) (next : Nat) (p : Progress) : List Nat → Progress
  | [] => p
  | m :: ms =>
    let p := { p with passed := p.passed + (m - next) * (p.size + 1) }
    let p := s.foldl (Progress.pass m) p
    writeFrom s (m + 1) { p with passed := p.passed + 1 } ms

/-- The code points beyond ASCII that occur in a text, each once, in ascending order. -/
def codePoints (s : List Char) : List Nat :=
  (((s.map Char.toNat).filter (128 ≤ ·)).mergeSort (· ≤ ·)).eraseReps

/-- A text in ASCII characters. -/
def encode (s : List Char) : List Char :=
  let basic := s.filter (·.toNat < 128)
  let p := writeFrom s 128 ⟨[], 0, 72, basic.length, false⟩ (codePoints s)
  (if basic.isEmpty then [] else basic ++ ['-']) ++ p.written.reverse

end Punycode
end Text
end ApiContract
