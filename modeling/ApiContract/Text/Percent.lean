import ApiContract.Text.Utf8

/-!
# Percent-encoding

A byte may be written as a percent sign and two hexadecimal digits.  A percent sign that no two
digits follow stands for itself.

**Results:** `Percent.decode` takes bytes to the bytes they stand for; `Percent.encode` writes a
text, encoding the bytes of a given set and every byte beyond ASCII.
-/

namespace ApiContract
namespace Text
namespace Percent

/-- Value of a hexadecimal digit given as a byte. -/
def hexDigit? (b : UInt8) : Option Nat :=
  let n := b.toNat
  if 48 ≤ n ∧ n ≤ 57 then some (n - 48)
  else if 65 ≤ n ∧ n ≤ 70 then some (n - 55)
  else if 97 ≤ n ∧ n ≤ 102 then some (n - 87)
  else none

/-- The byte that two hexadecimal digits name. -/
def byte? (a b : UInt8) : Option UInt8 :=
  match hexDigit? a, hexDigit? b with
  | some x, some y => some (UInt8.ofNat (16 * x + y))
  | _, _ => none

/-- The decoded bytes, behind those in `done`, which are in reverse order; `plain` reads a byte that
is not encoded. -/
def decodeOnto (plain : UInt8 → UInt8) (done : List UInt8) : List UInt8 → List UInt8
  | [] => done.reverse
  | 37 :: a :: b :: rest =>
    match byte? a b with
    | some c => decodeOnto plain (c :: done) rest
    | none => decodeOnto plain (plain 37 :: done) (a :: b :: rest)
  | b :: rest => decodeOnto plain (plain b :: done) rest

/-- The bytes that percent-encoded bytes stand for. -/
def decode (s : List UInt8) : List UInt8 :=
  decodeOnto id [] s

/-- A hexadecimal digit in capital letters. -/
def hexChar (n : Nat) : Char :=
  if n < 10 then Char.ofNat (n + 48) else Char.ofNat (n + 55)

/-- The percent-encoding of a byte. -/
def encodeByte (b : UInt8) : List Char :=
  ['%', hexChar (b.toNat / 16), hexChar (b.toNat % 16)]

/-- The percent-encoding of a character. -/
def encodeChar (c : Char) : List Char :=
  (Bytes.ofChars [c]).flatMap encodeByte

/-- A text with the characters of a set, and those beyond ASCII, percent-encoded. -/
def encode (inSet : Char → Bool) (s : List Char) : List Char :=
  s.flatMap fun c => if inSet c || c.toNat ≥ 0x80 then encodeChar c else [c]

end Percent
end Text
end ApiContract
