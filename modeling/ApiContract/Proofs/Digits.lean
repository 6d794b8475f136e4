import ApiContract.Decimal.Whole
import Mathlib.Data.Nat.Digits.Lemmas

/-!
# Decimal digits of whole numbers

**Input:** a whole number, with or without a sign, in decimal digits.

**Results:**

* `isDigit_toDigits`, `head_toDigits`: a number is written in digits, and only zero begins with a
  zero;
* `char_of_toString`: the characters of a number with a sign;
* `digits?_toDigits`, `signed?_toString`, `signedBits?_toString`: a number is read as it is written.
-/

namespace ApiContract
namespace Decimal

/-! ## Characters -/

theorem toNat_of_isDigit {c : Char} (h : c.isDigit = true) : 48 ≤ c.toNat ∧ c.toNat ≤ 57 := by
  simpa [Char.isDigit, UInt32.le_iff_toNat_le] using h

theorem isDigit_toDigits (n : Nat) : ∀ c ∈ Nat.toDigits 10 n, c.isDigit = true :=
  fun _ hc => Nat.isDigit_of_mem_toDigits (by decide) (by decide) hc

/-- The digits of a number begin with a zero only if the number is zero. -/
theorem head_toDigits {n : Nat} (h : n ≠ 0) (cs : List Char) : Nat.toDigits 10 n ≠ '0' :: cs := by
  induction n using Nat.strongRecOn generalizing cs with
  | ind n ih =>
      rcases Nat.lt_or_ge n 10 with hlt | hge
      · rw [Nat.toDigits_of_lt_base hlt]
        intro he
        have hdigit := congrArg Char.toNat (List.cons.inj he).1
        rw [Nat.toNat_digitChar_of_lt_ten hlt] at hdigit
        have hzero : '0'.toNat = 48 := rfl
        omega
      · rw [Nat.toDigits_of_base_le (by decide) hge]
        have hsmaller := ih (n / 10) (Nat.div_lt_self (by omega) (by decide)) (by omega)
        cases hd : Nat.toDigits 10 (n / 10) with
        | nil => exact absurd hd Nat.toDigits_ne_nil
        | cons d ds =>
            intro he
            obtain ⟨rfl, -⟩ := List.cons.inj he
            exact hsmaller _ hd

theorem toList_toString_ofNat (m : Nat) : (toString (Int.ofNat m)).toList = Nat.toDigits 10 m :=
  Nat.toList_repr

theorem toList_toString_negSucc (m : Nat) :
    (toString (Int.negSucc m)).toList = '-' :: Nat.toDigits 10 (m + 1) := by
  have htext : toString (Int.negSucc m) = "-" ++ Nat.repr (m + 1) := rfl
  rw [htext, String.toList_append, Nat.toList_repr]
  rfl

/-- The characters of a number: digits, and a sign in front of a negative one. -/
theorem char_of_toString {n : Int} {c : Char} (h : c ∈ (toString n).toList) :
    c.isDigit = true ∨ c = '-' := by
  cases n with
  | ofNat m =>
      rw [toList_toString_ofNat] at h
      exact Or.inl (isDigit_toDigits m c h)
  | negSucc m =>
      rw [toList_toString_negSucc] at h
      rcases List.mem_cons.1 h with rfl | hc
      · exact Or.inr rfl
      · exact Or.inl (isDigit_toDigits (m + 1) c hc)

/-! ## Reading -/

theorem digit?_of_isDigit {c : Char} (h : c.isDigit = true) :
    digit? 10 c = some (c.toNat - 48) := by
  have hrange := toNat_of_isDigit h
  simp only [digit?, h, if_true, Option.filter]
  rw [if_pos (by simp; omega)]

/-- Digits are read to the number that they write. -/
theorem digitsFrom?_of_isDigit {cs : List Char} (h : ∀ c ∈ cs, c.isDigit = true) (acc : Nat) :
    digitsFrom? 10 acc cs = some (Nat.ofDigitChars 10 cs acc) := by
  induction cs generalizing acc with
  | nil => rfl
  | cons c cs ih =>
      obtain ⟨hc, hcs⟩ := List.forall_mem_cons.1 h
      rw [digitsFrom?, digit?_of_isDigit hc]
      dsimp only
      rw [ih hcs, Nat.mul_comm]
      rfl

theorem digits?_toDigits (n : Nat) : digits? 10 (Nat.toDigits 10 n) = some n := by
  have hne : (Nat.toDigits 10 n).isEmpty = false := List.isEmpty_eq_false_iff.2 Nat.toDigits_ne_nil
  rw [digits?, hne, if_neg (by decide), digitsFrom?_of_isDigit (isDigit_toDigits n),
    Nat.ofDigitChars_toDigits (by decide) (by decide)]

/-- A number with a sign is read as it is written. -/
theorem signed?_toString (n : Int) : signed? 10 (toString n).toList = some n := by
  cases n with
  | ofNat m =>
      have hread := digits?_toDigits m
      rw [toList_toString_ofNat]
      -- a digit is no sign
      cases hcs : Nat.toDigits 10 m with
      | nil => exact absurd hcs Nat.toDigits_ne_nil
      | cons c cs =>
          have hc : c.isDigit = true := isDigit_toDigits m c (hcs ▸ List.mem_cons_self)
          rw [hcs] at hread
          unfold signed?
          split
          · rename_i heq
            obtain ⟨rfl, -⟩ := List.cons.inj heq
            cases hc
          · rename_i heq
            obtain ⟨rfl, -⟩ := List.cons.inj heq
            cases hc
          · rw [hread]
            rfl
  | negSucc m =>
      rw [toList_toString_negSucc, signed?, digits?_toDigits]
      rfl

/-- A number that fits a word is read as it is written. -/
theorem signedBits?_toString {bits : Nat} {n : Int} (h : fitsSigned bits n = true) :
    signedBits? bits (toString n).toList = some n := by
  rw [signedBits?, signed?_toString, Option.filter, if_pos h]

end Decimal
end ApiContract
