import ApiContract.Bytes

/-!
# Text from bytes

**Input:** bytes that should be UTF-8.

**Results:** `Utf8.decodeWith` gives the text.  Where bytes are not UTF-8, a mark stands for the
longest beginning of a character that was met, or for the single byte that begins none; for
`Utf8.decode` it is the replacement character.  Bytes of a text give this text back.
-/

namespace ApiContract
namespace Text
namespace Utf8

/-- A character of which not all bytes have been read. -/
structure Pending where
  /-- How many bytes are missing. -/
  missing : Nat
  /-- Value of the bits read so far. -/
  value : Nat
  /-- The least next byte. -/
  low : Nat
  /-- The greatest next byte. -/
  high : Nat

/-- The character that stands for bytes that are none. -/
def replacement : Char :=
  Char.ofNat 0xFFFD

/-- What the first byte of a character begins; `none` for a byte that begins no character of two or
more bytes. -/
def begin? (b : Nat) : Option Pending :=
  if 0xC2 ≤ b ∧ b ≤ 0xDF then some ⟨1, b - 0xC0, 0x80, 0xBF⟩
  else if 0xE0 ≤ b ∧ b ≤ 0xEF then
    some ⟨2, b - 0xE0, if b = 0xE0 then 0xA0 else 0x80, if b = 0xED then 0x9F else 0xBF⟩
  else if 0xF0 ≤ b ∧ b ≤ 0xF4 then
    some ⟨3, b - 0xF0, if b = 0xF0 then 0x90 else 0x80, if b = 0xF4 then 0x8F else 0xBF⟩
  else none

section Marked

variable (mark : List Char)

/-- Takes a byte between characters; `mark` stands for bytes that are no character. -/
def start (done : List Char) (b : Nat) : List Char × Option Pending :=
  if b < 0x80 then (Char.ofNat b :: done, none)
  else
    match begin? b with
    | some p => (done, some p)
    | none => (mark.reverseAux done, none)

/-- Takes a byte.  A byte that cannot go on with a character ends it and is taken anew. -/
def step (done : List Char) (pending : Option Pending) (b : Nat) : List Char × Option Pending :=
  match pending with
  | none => start mark done b
  | some p =>
    if p.low ≤ b ∧ b ≤ p.high then
      let value := p.value * 64 + (b - 0x80)
      if p.missing = 1 then (Char.ofNat value :: done, none)
      else (done, some ⟨p.missing - 1, value, 0x80, 0xBF⟩)
    else start mark (mark.reverseAux done) b

/-- The characters of bytes, behind those in `done`, which are in reverse order. -/
def charsOnto (done : List Char) (pending : Option Pending) : List UInt8 → List Char
  | [] => (if pending.isSome then mark.reverseAux done else done).reverse
  | b :: rest =>
    let s := step mark done pending b.toNat
    charsOnto s.1 s.2 rest

/-- The text of bytes. -/
def decodeWith (b : ByteArray) : String :=
  match String.fromUTF8? b with
  | some s => s
  | none => String.ofList (charsOnto mark [] none (Bytes.toList b))

end Marked

/-- The text of bytes, with the replacement character for those that are no character. -/
def decode (b : ByteArray) : String :=
  decodeWith [replacement] b

/-- Bytes of a text are UTF-8. -/
theorem fromUTF8?_toUTF8 (s : String) : String.fromUTF8? s.toUTF8 = some s := by
  simp only [String.fromUTF8?, String.toUTF8_eq_toByteArray]
  rw [dif_pos s.isValidUTF8]
  rfl

/-- Bytes of a text decode to it. -/
theorem decode_toUTF8 (s : String) : decode s.toUTF8 = s := by
  unfold decode decodeWith
  rw [fromUTF8?_toUTF8]

end Utf8
end Text
end ApiContract
