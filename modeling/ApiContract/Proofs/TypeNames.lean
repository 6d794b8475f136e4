import ApiContract.Proofs.Words

/-!
# Names of types

**Input:** texts that names are put together from: any text made into a name, and fixed suffixes.

A name may be followed by every text that holds letters, digits and underscores only and does not
begin with a small letter (`Follows`).  The result is no keyword either, since behind their first
character keywords have small letters only.

**Results:**

* `isTypeIdent_iff`: the names that pass the check are the identifiers that are no keywords;
* `Legal.append`: a legal name stays legal, whatever follows it;
* `follows_pascalCase`, `legal_of_typeName?`, `follows_of_typeName?`: any text in pascal case may
  follow a name, and what is made into a name is legal and may follow another;
* `legal_fieldIdent`: any text becomes a legal identifier of a field.
-/

namespace ApiContract
namespace Naming

/-- A name of generated code: a letter or an underscore, more letters, digits and underscores, no
lone underscore and no keyword. -/
structure Legal (s : String) : Prop where
  /-- It begins with a letter, or with an underscore and something behind it. -/
  starts : ∃ c rest, s.toList = c :: rest ∧ (c.isAlpha = true ∨ c = '_' ∧ rest ≠ [])
  /-- It holds letters, digits and underscores only. -/
  chars : ∀ c ∈ s.toList, c.isAlphanum = true ∨ c = '_'
  /-- It is not reserved. -/
  free : s ∉ keywords

/-- A text that may follow a name. -/
structure Follows (s : String) : Prop where
  /-- It does not begin with a small letter. -/
  starts : ∀ c ∈ s.toList.head?, c.isLower = false
  /-- It holds letters, digits and underscores only. -/
  chars : ∀ c ∈ s.toList, c.isAlphanum = true ∨ c = '_'

section Names

variable {s t : String} {c : Char}

theorem isIdentChar_iff : isIdentChar c = true ↔ c.isAlphanum = true ∨ c = '_' := by
  simp [isIdentChar]

/-- The check of names accepts the legal ones. -/
theorem isTypeIdent_iff : isTypeIdent s = true ↔ Legal s := by
  unfold isTypeIdent
  split
  · rename_i hs
    refine ⟨fun h => (Bool.false_ne_true h).elim, fun h => ?_⟩
    obtain ⟨c, rest, hc, -⟩ := h.starts
    rw [hs] at hc
    cases hc
  · rename_i c rest hs
    simp only [Bool.and_eq_true, Bool.or_eq_true, beq_iff_eq, Bool.not_eq_true',
      List.isEmpty_eq_false_iff, List.all_eq_true, isIdentChar_iff]
    constructor
    · rintro ⟨⟨hstart, hrest⟩, hfree⟩
      refine ⟨⟨c, rest, hs, hstart⟩, fun d hd => ?_, by simpa [isKeyword] using hfree⟩
      rw [hs] at hd
      rcases List.mem_cons.1 hd with rfl | hd
      · exact hstart.imp (fun h => by simp [Char.isAlphanum, h]) And.left
      · exact hrest d hd
    · intro h
      obtain ⟨c', rest', hs', hstart⟩ := h.starts
      obtain ⟨rfl, rfl⟩ := List.cons.inj (hs.symm.trans hs')
      refine ⟨⟨hstart, fun d hd => h.chars d ?_⟩, by simpa [isKeyword] using h.free⟩
      rw [hs]
      exact List.mem_cons_of_mem _ hd

/-- Behind its first character a keyword has small letters only. -/
theorem isLower_of_mem_tail {k : String} (hk : k ∈ keywords) (hc : c ∈ k.toList.tail) :
    c.isLower = true := by
  have hall : ∀ k ∈ keywords, k.toList.tail.all Char.isLower = true := by decide
  exact List.all_eq_true.1 (hall k hk) c hc

/-- A legal name stays legal when something follows it. -/
theorem Legal.append (hs : Legal s) (ht : Follows t) : Legal (s ++ t) := by
  obtain ⟨c, rest, hc, hstart⟩ := hs.starts
  have happend : (s ++ t).toList = c :: (rest ++ t.toList) := by
    rw [String.toList_append, hc, List.cons_append]
  refine ⟨⟨c, rest ++ t.toList, happend, ?_⟩, fun d hd => ?_, fun hk => ?_⟩
  · exact hstart.imp_right fun ⟨hu, hne⟩ => ⟨hu, by simp [hne]⟩
  · rw [String.toList_append] at hd
    exact (List.mem_append.1 hd).elim (hs.chars d) (ht.chars d)
  · cases hhead : t.toList with
    | nil =>
        have hnil : t = "" := String.toList_inj.1 hhead
        rw [hnil, String.append_empty] at hk
        exact hs.free hk
    | cons d more =>
        have hd : d ∈ (s ++ t).toList.tail := by
          rw [happend, hhead]
          simp
        have hlower := isLower_of_mem_tail hk hd
        rw [ht.starts d (by rw [hhead]; rfl)] at hlower
        cases hlower

/-- What follows a name may be checked by going through it. -/
theorem follows_of_all (hhead : s.toList.head?.all (fun c => !c.isLower) = true)
    (hall : s.toList.all isIdentChar = true) : Follows s where
  starts := by
    intro c hc
    rw [Option.mem_def.1 hc] at hhead
    simpa using hhead
  chars := fun c hc => isIdentChar_iff.1 (List.all_eq_true.1 hall c hc)

/-! ## Pascal case -/

theorem capital_of_isAlphanum (h : c.isAlphanum = true) : Text.capital c = [c.toUpper] :=
  if_pos (toNat_lt_of_isAlphanum h)

/-- A capital is a letter or digit again, and no small letter. -/
theorem toUpper_spec (h : c.isAlphanum = true) :
    c.toUpper.isAlphanum = true ∧ c.toUpper.isLower = false :=
  forall_of_ascii (fun c => c.toUpper.isAlphanum = true ∧ c.toUpper.isLower = false) (by decide) h

/-- A capitalized word holds letters and digits only, and begins with no small letter. -/
theorem capitalizeFirst_spec {word : List Char} (hne : word ≠ [])
    (h : ∀ c ∈ word, c.isAlphanum = true) :
    Text.capitalizeFirst word ≠ [] ∧
      (∀ c ∈ (Text.capitalizeFirst word).head?, c.isLower = false) ∧
      ∀ c ∈ Text.capitalizeFirst word, c.isAlphanum = true := by
  cases word with
  | nil => exact absurd rfl hne
  | cons c rest =>
      obtain ⟨hc, hrest⟩ := List.forall_mem_cons.1 h
      obtain ⟨halnum, hlower⟩ := toUpper_spec hc
      rw [Text.capitalizeFirst, capital_of_isAlphanum hc]
      refine ⟨List.cons_ne_nil _ _, ?_, List.forall_mem_cons.2 ⟨halnum, hrest⟩⟩
      rintro d ⟨⟩
      exact hlower

/-- Pascal case holds letters and digits only, and begins with no small letter. -/
theorem pascalChars_spec (s : List Char) :
    (∀ c ∈ (pascalChars s).head?, c.isLower = false) ∧
      ∀ c ∈ pascalChars s, c.isAlphanum = true := by
  constructor
  · intro c hc
    unfold pascalChars at hc
    cases hwords : wordsOf s with
    | nil => simp [hwords] at hc
    | cons word later =>
        have hword : word ∈ wordsOf s := hwords ▸ List.mem_cons_self
        obtain ⟨hne, hhead, -⟩ := capitalizeFirst_spec (wordsOf_spec hword).1 (wordsOf_spec hword).2
        obtain ⟨d, more, hd⟩ := List.exists_cons_of_ne_nil hne
        rw [hwords, List.flatMap_cons, hd, List.cons_append] at hc
        exact hhead c (by rwa [hd])
  · intro c hc
    obtain ⟨word, hword, hc⟩ := List.mem_flatMap.1 hc
    exact (capitalizeFirst_spec (wordsOf_spec hword).1 (wordsOf_spec hword).2).2.2 c hc

/-- Any text in pascal case may follow a name, also one without words. -/
theorem follows_pascalCase (s : String) : Follows (pascalCase s) where
  starts := by
    rw [pascalCase, String.toList_ofList]
    exact (pascalChars_spec s.toList).1
  chars := by
    rw [pascalCase, String.toList_ofList]
    exact fun c hc => Or.inl ((pascalChars_spec s.toList).2 c hc)

/-! ## Type names -/

theorem isAlpha_of_not_isDigit (h : c.isAlphanum = true) (hd : ¬ c.isDigit = true) :
    c.isAlpha = true := by
  simpa [Char.isAlphanum, hd] using h

/-- What makes a text the name of a type: an underscore in front of a digit or behind a keyword. -/
theorem typeName?_cases (h : typeName? s = some t) :
    pascalChars s.toList ≠ [] ∧
      (startsWithDigit (pascalChars s.toList) = true ∧ t.toList = '_' :: pascalChars s.toList ∨
        startsWithDigit (pascalChars s.toList) = false ∧ (
          t.toList = pascalChars s.toList ++ ['_'] ∨
          t.toList = pascalChars s.toList ∧ isKeyword t = false)) := by
  unfold typeName? at h
  dsimp only at h
  split at h
  · cases h
  · rename_i hne
    refine ⟨by simpa using hne, ?_⟩
    split at h
    · rename_i hdigit
      obtain rfl := Option.some.inj h
      exact Or.inl ⟨hdigit, String.toList_ofList⟩
    · rename_i hdigit
      refine Or.inr ⟨by simpa using hdigit, ?_⟩
      split at h
      · obtain rfl := Option.some.inj h
        exact Or.inl String.toList_ofList
      · rename_i hkey
        obtain rfl := Option.some.inj h
        exact Or.inr ⟨String.toList_ofList, by simpa using hkey⟩

/-- The name of a type may follow another. -/
theorem follows_of_typeName? (h : typeName? s = some t) : Follows t := by
  obtain ⟨hne, hcases⟩ := typeName?_cases h
  obtain ⟨hhead, hchars⟩ := pascalChars_spec s.toList
  have hchars' : ∀ c ∈ pascalChars s.toList, c.isAlphanum = true ∨ c = '_' :=
    fun c hc => Or.inl (hchars c hc)
  rcases hcases with ⟨-, ht⟩ | ⟨-, ht | ⟨ht, -⟩⟩
  · refine ⟨fun c hc => ?_, fun c hc => ?_⟩
    · rw [ht] at hc
      obtain rfl := Option.some.inj hc
      decide
    · rw [ht] at hc
      exact (List.mem_cons.1 hc).elim Or.inr (hchars' c)
  · refine ⟨fun c hc => ?_, fun c hc => ?_⟩
    · obtain ⟨d, more, hd⟩ := List.exists_cons_of_ne_nil hne
      rw [ht, hd, List.cons_append] at hc
      exact hhead c (by rwa [hd])
    · rw [ht] at hc
      exact (List.mem_append.1 hc).elim (hchars' c) fun hc => Or.inr (List.mem_singleton.1 hc)
  · exact ⟨by rwa [ht], by rwa [ht]⟩

/-- No keyword holds an underscore. -/
theorem not_mem_keywords_of_mem {t : String} (h : '_' ∈ t.toList) : t ∉ keywords := by
  have hall : ∀ k ∈ keywords, '_' ∉ k.toList := by decide
  exact fun hk => hall t hk h

/-- What is made into the name of a type is legal. -/
theorem legal_of_typeName? (h : typeName? s = some t) : Legal t := by
  have hchars := (follows_of_typeName? h).chars
  obtain ⟨hne, hcases⟩ := typeName?_cases h
  cases hpascal : pascalChars s.toList with
  | nil => exact absurd hpascal hne
  | cons c rest =>
      have hc : c.isAlphanum = true := by
        refine (pascalChars_spec s.toList).2 c ?_
        rw [hpascal]
        exact List.mem_cons_self
      rw [hpascal] at hcases
      rcases hcases with ⟨-, ht⟩ | ⟨hdigit, ht | ⟨ht, hkey⟩⟩
      · refine ⟨⟨'_', c :: rest, ht, Or.inr ⟨rfl, List.cons_ne_nil _ _⟩⟩, hchars, ?_⟩
        exact not_mem_keywords_of_mem (by simp [ht])
      · refine ⟨⟨c, rest ++ ['_'], ht, Or.inl ?_⟩, hchars, ?_⟩
        · exact isAlpha_of_not_isDigit hc (by simpa [startsWithDigit] using hdigit)
        · exact not_mem_keywords_of_mem (by simp [ht])
      · refine ⟨⟨c, rest, ht, Or.inl ?_⟩, hchars, by simpa [isKeyword] using hkey⟩
        exact isAlpha_of_not_isDigit hc (by simpa [startsWithDigit] using hdigit)

/-! ## Identifiers of any text -/

/-- The words of an identifier begin with a letter or a digit. -/
theorem isAlphanum_head_identWords {s : String} {c : Char} {rest : List Char}
    (h : List.intercalate ['_'] (identWords s) = c :: rest) : c.isAlphanum = true := by
  obtain ⟨hne, hwords⟩ := identWords_spec s
  obtain ⟨word, later, hw⟩ := List.exists_cons_of_ne_nil hne
  obtain ⟨hword, hchars⟩ := hwords word (hw ▸ List.mem_cons_self)
  obtain ⟨d, more, rfl⟩ := List.exists_cons_of_ne_nil hword
  have hd : c = d := by
    rw [hw] at h
    cases later with
    | nil => exact (List.cons.inj (by simpa using h.symm)).1
    | cons next later =>
        rw [List.intercalate_cons_cons, List.cons_append] at h
        exact (List.cons.inj h).1.symm
  rw [hd]
  exact hchars d List.mem_cons_self

/-- Any text becomes a legal identifier. -/
theorem legal_fieldIdent (s : String) : Legal (fieldIdent s) := by
  refine ⟨?_, fun c hc => mem_fieldIdent hc, by simpa [isKeyword] using isKeyword_fieldIdent s⟩
  obtain ⟨c, rest, hname⟩ := List.exists_cons_of_ne_nil (intercalate_identWords_ne_nil s)
  have hc := isAlphanum_head_identWords hname
  rw [fieldIdent_eq, String.toList_ofList, hname, escaped]
  split
  · rename_i hkey
    have hkeywords : ∀ k ∈ keywords, k.toList.head?.all Char.isAlpha = true := by decide
    have hhead := hkeywords _ (List.contains_iff_mem.1 hkey)
    rw [String.toList_ofList] at hhead
    exact ⟨c, rest ++ ['_'], rfl, Or.inl hhead⟩
  · split
    · exact ⟨'_', c :: rest, rfl, Or.inr ⟨rfl, List.cons_ne_nil _ _⟩⟩
    · rename_i hdigit
      exact ⟨c, rest, rfl,
        Or.inl (isAlpha_of_not_isDigit hc (by simpa [startsWithDigit] using hdigit))⟩

end Names

end Naming
end ApiContract
