import ApiContract.Proofs.HeaderExchange
import ApiContract.Url.Path

/-!
# Percent-encoded texts

**Input:** a text of which some characters are percent-encoded, at least the percent sign.

**Results:**

* `decode_encode`: the bytes that it stands for are those of the text;
* `dots_encode`: its dots are those of the text, if dots are not encoded;
* `encode_eq_iff`: it is equal to a text without encoded characters only if it is this text.
-/

namespace ApiContract

/-! ## Bytes of characters -/

namespace Bytes

theorem ofChars_eq (s : List Char) : ofChars s = s.flatMap String.utf8EncodeChar := by
  rw [ofChars, toList_toUTF8_eq_flatMap, String.toList_ofList]

theorem ofChars_append (s t : List Char) : ofChars (s ++ t) = ofChars s ++ ofChars t := by
  rw [ofChars_eq, ofChars_eq, ofChars_eq, List.flatMap_append]

theorem ofChars_cons (c : Char) (s : List Char) : ofChars (c :: s) = ofChars [c] ++ ofChars s :=
  ofChars_append [c] s

theorem ofChars_singleton (c : Char) : ofChars [c] = String.utf8EncodeChar c := by
  rw [ofChars_eq, List.flatMap_singleton]

/-- Texts with the same bytes are the same. -/
theorem ofChars_inj {s t : List Char} : ofChars s = ofChars t ↔ s = t := by
  constructor
  · intro h
    have htext : ∀ s, text? (ofChars s) = some (String.ofList s) := by
      intro s
      rw [text?, ofChars, ofList_toList]
      exact Text.Utf8.fromUTF8?_toUTF8 _
    have hs := (htext s).symm.trans (h ▸ htext t)
    exact String.ofList_injective (Option.some.inj hs)
  · rintro rfl
    rfl

end Bytes

namespace Text.Percent

/-! ## Single bytes -/

section Digits

theorem hexDigit?_hexChar : ∀ n < 16, hexDigit? (hexChar n).toNat.toUInt8 = some n := by
  decide

theorem toNat_hexChar_lt : ∀ n < 16, (hexChar n).toNat < 128 := by
  decide

/-- The byte of a dot is written with digits that begin no encoded dot. -/
theorem eq_dot_of_hexChar {a b : Nat} (ha : a < 16) (hb : b < 16) (h2 : hexChar a = '2')
    (he : hexChar b = 'e' ∨ hexChar b = 'E') : 16 * a + b = 46 := by
  have hdigits : ∀ a < 16, hexChar a = '2' → a = 2 := by decide
  have hletters : ∀ b < 16, hexChar b = 'e' ∨ hexChar b = 'E' → b = 14 := by decide
  rw [hdigits a ha h2, hletters b hb he]

/-- The two digits of a byte name it. -/
theorem byte?_hexChar (b : UInt8) :
    byte? (hexChar (b.toNat / 16)).toNat.toUInt8 (hexChar (b.toNat % 16)).toNat.toUInt8 =
      some b := by
  have hlt := b.toNat_lt
  rw [byte?, hexDigit?_hexChar _ (by omega), hexDigit?_hexChar _ (by omega)]
  simp only [Nat.div_add_mod, UInt8.ofNat_toNat]

theorem ofChars_encodeByte (b : UInt8) :
    Bytes.ofChars (encodeByte b) = [37, (hexChar (b.toNat / 16)).toNat.toUInt8,
      (hexChar (b.toNat % 16)).toNat.toUInt8] := by
  have hlt := b.toNat_lt
  have hpercent : String.utf8EncodeChar '%' = [37] := utf8EncodeChar_of_lt (by decide)
  rw [Bytes.ofChars_eq, encodeByte, List.flatMap_cons, List.flatMap_cons, List.flatMap_singleton,
    hpercent, utf8EncodeChar_of_lt (toNat_hexChar_lt _ (by omega)),
    utf8EncodeChar_of_lt (toNat_hexChar_lt _ (by omega))]
  rfl

theorem decodeOnto_cons_of_ne {b : UInt8} (h : b ≠ 37) (plain : UInt8 → UInt8)
    (done rest : List UInt8) :
    decodeOnto plain done (b :: rest) = decodeOnto plain (plain b :: done) rest := by
  rw [decodeOnto]
  rintro _ _ _ rfl
  exact absurd rfl h

/-- An encoded byte is read as this byte. -/
theorem decodeOnto_encodeByte (plain : UInt8 → UInt8) (b : UInt8) (done rest : List UInt8) :
    decodeOnto plain done (Bytes.ofChars (encodeByte b) ++ rest) =
      decodeOnto plain (b :: done) rest := by
  rw [ofChars_encodeByte]
  simp only [List.cons_append, List.nil_append]
  rw [decodeOnto, byte?_hexChar]

theorem decodeOnto_encodeBytes (bs done rest : List UInt8) :
    decodeOnto id done (Bytes.ofChars (bs.flatMap encodeByte) ++ rest) =
      decodeOnto id (bs.reverse ++ done) rest := by
  induction bs generalizing done with
  | nil => rfl
  | cons b bs ih =>
      rw [List.flatMap_cons, Bytes.ofChars_append, List.append_assoc, decodeOnto_encodeByte, ih]
      simp

end Digits

/-! ## Texts -/

section Texts

variable {inSet : Char → Bool} {s t : List Char} {c : Char}

/-- A character of an encoded text: its bytes are encoded, or it stands there as it is. -/
theorem encode_cons (inSet : Char → Bool) (c : Char) (s : List Char) :
    encode inSet (c :: s) =
      (if inSet c || c.toNat ≥ 0x80 then encodeChar c else [c]) ++ encode inSet s :=
  List.flatMap_cons

theorem decodeOnto_encode (hpercent : inSet '%' = true) (done : List UInt8) (s : List Char) :
    decodeOnto id done (Bytes.ofChars (encode inSet s)) = done.reverse ++ Bytes.ofChars s := by
  induction s generalizing done with
  | nil => rw [encode, List.flatMap_nil]; simp [Bytes.ofChars_eq, decodeOnto]
  | cons c s ih =>
      rw [encode_cons, Bytes.ofChars_append, Bytes.ofChars_cons c s]
      split
      · rw [encodeChar, decodeOnto_encodeBytes, ih]
        simp
      · rename_i hplain
        simp only [Bool.or_eq_true, decide_eq_true_eq, not_or, Nat.not_le] at hplain
        have hne : c.toNat.toUInt8 ≠ 37 := by
          intro hc
          have hcode := congrArg UInt8.toNat hc
          rw [UInt8.toNat_ofNat_of_lt' (Nat.lt_trans hplain.2 (by decide))] at hcode
          have hpercent' : c = '%' := Char.toNat_inj.1 hcode
          rw [hpercent'] at hplain
          exact hplain.1 hpercent
        rw [Bytes.ofChars_singleton, utf8EncodeChar_of_lt hplain.2, List.singleton_append,
          decodeOnto_cons_of_ne hne, ih]
        simp

/-- Decoding an encoded text gives its bytes, if the percent sign is encoded. -/
theorem decode_encode (hpercent : inSet '%' = true) (s : List Char) :
    decode (Bytes.ofChars (encode inSet s)) = Bytes.ofChars s :=
  decodeOnto_encode hpercent [] s

theorem encode_inj (hpercent : inSet '%' = true) : encode inSet s = encode inSet t ↔ s = t := by
  constructor
  · intro h
    rw [← Bytes.ofChars_inj, ← decode_encode hpercent s, h, decode_encode hpercent t]
  · rintro rfl
    rfl

/-- What is not encoded stays. -/
theorem encode_of_plain (h : ∀ c ∈ s, inSet c = false ∧ c.toNat < 0x80) : encode inSet s = s := by
  induction s with
  | nil => rfl
  | cons c s ih =>
      obtain ⟨⟨hset, hlt⟩, hs⟩ := List.forall_mem_cons.1 h
      have hplain : ¬ (inSet c || c.toNat ≥ 0x80) = true := by simpa [hset] using hlt
      rw [encode_cons, if_neg hplain, ih hs, List.singleton_append]

/-- An encoded text without encoded characters is the text. -/
theorem encode_eq_iff (hpercent : inSet '%' = true)
    (h : ∀ c ∈ t, inSet c = false ∧ c.toNat < 0x80) : encode inSet s = t ↔ s = t := by
  rw [← encode_inj hpercent (s := s), encode_of_plain h]

end Texts

end Text.Percent

namespace Url

open Text.Percent

/-! ## Dots -/

section Dots

variable {inSet : Char → Bool} {c : Char}

theorem dots_percent {x y : Char} (h : ¬ (x = '2' ∧ (y = 'e' ∨ y = 'E'))) (t : List Char) :
    Segment.dots ('%' :: x :: y :: t) = '%' :: x :: y :: t := by
  by_cases hx : x = '2'
  · subst hx
    have hy : ¬ (y = 'e' ∨ y = 'E') := fun hy => h ⟨rfl, hy⟩
    rw [Segment.dots, if_neg hy]
  · rw [Segment.dots]
    · rintro _ _ ⟨⟩
      exact hx rfl
    · rintro _ ⟨⟩

theorem dots_cons_of_ne (hpercent : c ≠ '%') (hdot : c ≠ '.') (t : List Char) :
    Segment.dots (c :: t) = c :: t := by
  rw [Segment.dots]
  · rintro _ _ ⟨⟩
    exact hpercent rfl
  · rintro _ ⟨⟩
    exact hdot rfl

/-- Only an encoded dot is taken for a dot. -/
theorem dots_encodeChar_append (hc : c ≠ '.') (t : List Char) :
    Segment.dots (encodeChar c ++ t) = encodeChar c ++ t := by
  -- The first byte of the character is not that of a dot.
  obtain ⟨b, rest, hbytes, hb⟩ : ∃ b rest, Bytes.ofChars [c] = b :: rest ∧ b.toNat ≠ 46 := by
    rw [Bytes.ofChars_singleton]
    by_cases hlt : c.toNat < 128
    · refine ⟨_, _, utf8EncodeChar_of_lt hlt, ?_⟩
      rw [UInt8.toNat_ofNat_of_lt' (Nat.lt_trans hlt (by decide))]
      exact fun hcode => hc (Char.toNat_inj.1 hcode)
    · obtain ⟨hne, hbeyond⟩ := utf8EncodeChar_of_ge (Nat.not_lt.1 hlt)
      obtain ⟨b, rest, hbytes⟩ := List.exists_cons_of_ne_nil hne
      refine ⟨b, rest, hbytes, ?_⟩
      have hge := hbeyond b (hbytes ▸ List.mem_cons_self)
      omega
  have hlt := b.toNat_lt
  rw [encodeChar, hbytes, List.flatMap_cons, encodeByte]
  refine dots_percent (fun ⟨h2, he⟩ => hb ?_) _
  have hdot := eq_dot_of_hexChar (by omega) (by omega) h2 he
  rwa [Nat.div_add_mod] at hdot

/-- The dots of an encoded text are those of the text, if dots are not encoded. -/
theorem dots_encode (hdot : inSet '.' = false) (hpercent : inSet '%' = true) (s : List Char) :
    Segment.dots (encode inSet s) = encode inSet s := by
  induction s with
  | nil => rfl
  | cons c s ih =>
      have hplain : ¬ (inSet '.' || '.'.toNat ≥ 0x80) = true := by
        rw [hdot]
        decide
      rw [encode_cons]
      by_cases hc : c = '.'
      · subst hc
        rw [if_neg hplain, List.singleton_append, Segment.dots, ih]
      · split
        · exact dots_encodeChar_append hc _
        · rename_i hkept
          refine dots_cons_of_ne (fun he => hkept ?_) hc _
          rw [he, hpercent]
          rfl

end Dots

end Url
end ApiContract
