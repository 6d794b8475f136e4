import ApiContract.Naming

/-!
# The words of identifiers

**Input:** any text.

The words of a text are pieces of it, letters and digits only.  A field or a module gets them in
small letters, with underscores between them; what makes this a legal identifier adds an underscore
in front or behind.  So the words are found again between the underscores of the identifier.

**Results:**

* `flatten_cutRun`, `wordsOf_spec`: words are not empty and hold letters and digits only;
* `splitOn_fieldIdent`: the words between the underscores of an identifier;
* `fieldIdent_eq_iff`: two texts have the same identifier if they have the same words but for the
  case of letters;
* `isKeyword_fieldIdent`, `mem_fieldIdent`: an identifier is no keyword, and holds letters, digits
  and underscores only.
-/

namespace ApiContract
namespace Naming

/-! ## Words -/

section Words

variable {p : Char → Bool} {s : List Char}

/-- A run is not empty, and its characters have the property. -/
theorem runs_spec {run : List Char} (h : run ∈ runs p s) : run ≠ [] ∧ ∀ c ∈ run, p c = true := by
  fun_induction runs p s generalizing run with
  | case1 => cases h
  | case2 c hc =>
      obtain rfl := List.mem_singleton.1 h
      simpa using hc
  | case3 c hc d rest hd heq ih =>
      rw [heq] at h
      obtain rfl := List.mem_singleton.1 h
      simpa using hc
  | case4 c hc d rest hd first later heq ih =>
      rw [heq] at h
      rcases List.mem_cons.1 h with rfl | h
      · obtain ⟨-, hfirst⟩ := ih (heq ▸ List.mem_cons_self)
        exact ⟨List.cons_ne_nil _ _, List.forall_mem_cons.2 ⟨hc, hfirst⟩⟩
      · exact ih (heq ▸ List.mem_cons_of_mem _ h)
  | case5 c hc d rest hd ih =>
      rcases List.mem_cons.1 h with rfl | h
      · simpa using hc
      · exact ih h
  | case6 c rest hc ih => exact ih h

theorem flatten_runs (p : Char → Bool) (s : List Char) : (runs p s).flatten = s.filter p := by
  fun_induction runs p s with
  | case1 => rfl
  | case2 c hc => simp [hc]
  | case3 c hc d rest hd heq ih =>
      rw [List.filter_cons_of_pos hc, ← ih, heq]
      rfl
  | case4 c hc d rest hd run later heq ih =>
      rw [List.filter_cons_of_pos hc, ← ih, heq]
      rfl
  | case5 c hc d rest hd ih =>
      rw [List.filter_cons_of_pos hc, ← ih]
      rfl
  | case6 c rest hc ih => rw [List.filter_cons_of_neg hc, ih]

/-- What is cut is put together again. -/
theorem wordsAfter_spec (prev : Char) (s : List Char) :
    (wordsAfter prev s).1 ++ (wordsAfter prev s).2.flatten = s ∧
      ∀ word ∈ (wordsAfter prev s).2, word ≠ [] := by
  induction s generalizing prev with
  | nil => simp [wordsAfter]
  | cons c rest ih =>
      obtain ⟨hflatten, hlater⟩ := ih c
      rw [wordsAfter]
      dsimp only
      split
      · refine ⟨by simpa using hflatten, fun word hword => ?_⟩
        rcases List.mem_cons.1 hword with rfl | hword
        · exact List.cons_ne_nil _ _
        · exact hlater word hword
      · exact ⟨by simpa using hflatten, hlater⟩

theorem flatten_cutRun (s : List Char) : (cutRun s).flatten = s := by
  cases s with
  | nil => rfl
  | cons c rest => simpa [cutRun] using (wordsAfter_spec c rest).1

theorem ne_nil_of_mem_cutRun {word : List Char} (h : word ∈ cutRun s) : word ≠ [] := by
  cases s with
  | nil => cases h
  | cons c rest =>
      rcases List.mem_cons.1 h with rfl | h
      · exact List.cons_ne_nil _ _
      · exact (wordsAfter_spec c rest).2 word h

/-- A word is not empty, and holds letters and digits only. -/
theorem wordsOf_spec {word : List Char} (h : word ∈ wordsOf s) :
    word ≠ [] ∧ ∀ c ∈ word, c.isAlphanum = true := by
  obtain ⟨run, hrun, h⟩ := List.mem_flatMap.1 h
  refine ⟨ne_nil_of_mem_cutRun h, fun c hc => (runs_spec hrun).2 c ?_⟩
  rw [← flatten_cutRun run]
  exact List.mem_flatten.2 ⟨word, h, hc⟩

/-- Together the words are the letters and digits of the text. -/
theorem flatten_wordsOf (s : List Char) : (wordsOf s).flatten = s.filter Char.isAlphanum := by
  have hcut : ∀ rs : List (List Char), (rs.flatMap cutRun).flatten = rs.flatten := by
    intro rs
    induction rs with
    | nil => rfl
    | cons run rs ih =>
        rw [List.flatMap_cons, List.flatten_append, flatten_cutRun, ih, List.flatten_cons]
  rw [wordsOf, hcut, flatten_runs]

end Words

/-! ## Characters -/

section Characters

variable {c : Char}

theorem toNat_lt_of_isAlphanum (h : c.isAlphanum = true) : c.toNat < 128 := by
  have hranges : (decide (c.val ≥ 'A'.val ∧ c.val ≤ 'Z'.val) ||
      (c.val ≥ 'a'.val && c.val ≤ 'z'.val) || (c.val ≥ '0'.val && c.val ≤ '9'.val)) = true := h
  simp only [Bool.or_eq_true, Bool.and_eq_true, decide_eq_true_eq, UInt32.le_iff_toNat_le,
    ge_iff_le] at hranges
  have hc : c.toNat = c.val.toNat := rfl
  have hupper : 'Z'.val.toNat = 90 := rfl
  have hlower : 'z'.val.toNat = 122 := rfl
  have hdigit : '9'.val.toNat = 57 := rfl
  omega

/-- What can be checked of all ASCII characters holds of all letters and digits. -/
theorem forall_of_ascii (p : Char → Prop)
    (h : ∀ n < 128, (Char.ofNat n).isAlphanum = true → p (Char.ofNat n))
    (hc : c.isAlphanum = true) :
    p c := by
  have hp := h c.toNat (toNat_lt_of_isAlphanum hc)
  rw [Char.ofNat_toNat] at hp
  exact hp hc

theorem isAlphanum_toLower (h : c.isAlphanum = true) : c.toLower.isAlphanum = true :=
  forall_of_ascii (fun c => c.toLower.isAlphanum = true) (by decide) h

end Characters

/-! ## Identifiers -/

/-- The words of an identifier. -/
def identWords (s : String) : List (List Char) :=
  if wordsOf s.toList = [] then ["value".toList] else (wordsOf s.toList).map (·.map Char.toLower)

/-- What makes words a legal identifier. -/
def escaped (name : List Char) : List Char :=
  if isKeyword (String.ofList name) then name ++ ['_']
  else if startsWithDigit name then '_' :: name
  else name

section Identifiers

variable {s t : String}

theorem mem_intercalate {c : Char} {separator : List Char} {ws : List (List Char)}
    (h : c ∈ List.intercalate separator ws) : c ∈ separator ∨ ∃ word ∈ ws, c ∈ word := by
  induction ws with
  | nil => cases h
  | cons word ws ih =>
      cases ws with
      | nil => exact Or.inr ⟨word, List.mem_singleton.2 rfl, by simpa using h⟩
      | cons next ws =>
          rw [List.intercalate_cons_cons, List.mem_append, List.mem_append] at h
          rcases h with (h | h) | h
          · exact Or.inr ⟨word, List.mem_cons_self, h⟩
          · exact Or.inl h
          · rcases ih h with h | ⟨w, hw, h⟩
            · exact Or.inl h
            · exact Or.inr ⟨w, List.mem_cons_of_mem _ hw, h⟩

/-- There is a word, and words are not empty and hold letters and digits only. -/
theorem identWords_spec (s : String) :
    identWords s ≠ [] ∧ ∀ word ∈ identWords s, word ≠ [] ∧ ∀ c ∈ word, c.isAlphanum = true := by
  unfold identWords
  split
  · have hchars : "value".toList.all Char.isAlphanum = true := by decide
    simp only [List.mem_singleton, forall_eq]
    exact ⟨by decide, by decide, List.all_eq_true.1 hchars⟩
  · rename_i hwords
    refine ⟨by simpa using hwords, fun word h => ?_⟩
    obtain ⟨w, hw, rfl⟩ := List.mem_map.1 h
    obtain ⟨hne, hchars⟩ := wordsOf_spec hw
    refine ⟨by simpa using hne, fun c hc => ?_⟩
    obtain ⟨d, hd, rfl⟩ := List.mem_map.1 hc
    exact isAlphanum_toLower (hchars d hd)

/-- Between the underscores stand the words. -/
theorem splitOn_intercalate_identWords (s : String) :
    (List.intercalate ['_'] (identWords s)).splitOn '_' = identWords s := by
  obtain ⟨hne, hwords⟩ := identWords_spec s
  refine List.splitOn_intercalate '_' (fun word hword hm => ?_) hne
  exact absurd ((hwords word hword).2 '_' hm) (by decide)

theorem intercalate_identWords_ne_nil (s : String) :
    List.intercalate ['_'] (identWords s) ≠ [] := by
  intro hnil
  have hsplit := splitOn_intercalate_identWords s
  rw [hnil, List.splitOn_nil] at hsplit
  have hmem : [] ∈ identWords s := by
    rw [← hsplit]
    exact List.mem_singleton.2 rfl
  exact ((identWords_spec s).2 [] hmem).1 rfl

theorem fieldIdent_eq (s : String) :
    fieldIdent s = String.ofList (escaped (List.intercalate ['_'] (identWords s))) := by
  by_cases hwords : wordsOf s.toList = []
  · have hident : identWords s = ["value".toList] := if_pos hwords
    have hsnake : snakeChars s.toList = [] := by simp [snakeChars, hwords]
    rw [hident]
    simp only [fieldIdent, hsnake]
    rfl
  · have hident : identWords s = (wordsOf s.toList).map (·.map Char.toLower) := if_neg hwords
    have hsnake : snakeChars s.toList = List.intercalate ['_'] (identWords s) := by
      rw [hident, snakeChars]
    have hne : ¬ (List.intercalate ['_'] (identWords s)).isEmpty = true := by
      simpa using intercalate_identWords_ne_nil s
    unfold fieldIdent
    dsimp only
    rw [hsnake, if_neg hne, escaped]
    split
    · rfl
    · split <;> rfl

/-- The words between the underscores of an identifier. -/
theorem splitOn_fieldIdent (s : String) :
    ((fieldIdent s).toList.splitOn '_').filter (!·.isEmpty) = identWords s := by
  obtain ⟨hne, hwords⟩ := identWords_spec s
  have hfilter : (identWords s).filter (!·.isEmpty) = identWords s :=
    List.filter_eq_self.2 fun word hword => by simpa using (hwords word hword).1
  have hsplit := splitOn_intercalate_identWords s
  rw [fieldIdent_eq, String.toList_ofList, escaped]
  split
  · have hbehind : (List.intercalate ['_'] (identWords s) ++ ['_']).splitOn '_' =
        identWords s ++ [[]] := by
      rw [List.splitOn, List.splitOnP_append_cons _ _ (by decide)]
      exact congrArg (· ++ [[]]) hsplit
    rw [hbehind, List.filter_append, hfilter]
    simp
  · split
    · have hfront : ('_' :: List.intercalate ['_'] (identWords s)).splitOn '_' =
          [] :: identWords s := by
        rw [List.splitOn, ← List.nil_append ('_' :: _), List.splitOnP_append_cons _ _ (by decide)]
        exact congrArg ([] :: ·) hsplit
      rw [hfront]
      simpa using hfilter
    · rw [hsplit, hfilter]

theorem toList_fieldIdent_ne_nil (s : String) : (fieldIdent s).toList ≠ [] := by
  intro hnil
  have hwords := splitOn_fieldIdent s
  rw [hnil] at hwords
  exact (identWords_spec s).1 hwords.symm

/-- Two texts have the same identifier if their words are the same but for the case of letters. -/
theorem fieldIdent_eq_iff : fieldIdent s = fieldIdent t ↔ identWords s = identWords t := by
  constructor
  · intro h
    rw [← splitOn_fieldIdent, h, splitOn_fieldIdent]
  · intro h
    rw [fieldIdent_eq, fieldIdent_eq, h]

/-- The letters and digits of a text. -/
def letters (s : String) : List Char :=
  s.toList.filter Char.isAlphanum

@[simp] theorem letters_append (s t : String) : letters (s ++ t) = letters s ++ letters t := by
  simp [letters]

/-- The last letter or digit of a text, in lower case. -/
def lastLetter? (s : String) : Option Char :=
  ((letters s).map Char.toLower).getLast?

theorem lastLetter?_append {c : Char} (ht : lastLetter? t = some c) :
    lastLetter? (s ++ t) = some c := by
  rw [lastLetter?, letters_append, List.map_append, List.getLast?_append]
  exact congrArg (Option.or · _) ht

/-- The words of a text with a letter or digit are made of all of them. -/
theorem flatten_identWords (hs : letters s ≠ []) :
    (identWords s).flatten = (letters s).map Char.toLower := by
  have hwords : wordsOf s.toList ≠ [] := by
    intro he
    rw [letters, ← flatten_wordsOf, he] at hs
    exact hs rfl
  rw [identWords, if_neg hwords, ← List.map_flatten, flatten_wordsOf, letters]

/-- Texts that end in different letters have different identifiers. -/
theorem fieldIdent_ne {a b : Char} (hs : lastLetter? s = some a) (ht : lastLetter? t = some b)
    (hne : a ≠ b) : fieldIdent s ≠ fieldIdent t := by
  have hlast : ∀ {s : String} {c : Char}, lastLetter? s = some c →
      (identWords s).flatten.getLast? = some c := by
    intro s c hc
    have hletters : letters s ≠ [] := by
      intro he
      rw [lastLetter?, he] at hc
      cases hc
    rw [flatten_identWords hletters]
    exact hc
  intro h
  have hwords := hlast hs
  rw [fieldIdent_eq_iff.1 h, hlast ht] at hwords
  exact hne (Option.some.inj hwords).symm

theorem mem_escaped {name : List Char} {c : Char} (h : c ∈ escaped name) : c ∈ name ∨ c = '_' := by
  unfold escaped at h
  split at h
  · simpa using h
  · split at h
    · simpa [or_comm] using h
    · exact Or.inl h

theorem mem_fieldIdent {c : Char} (h : c ∈ (fieldIdent s).toList) :
    c.isAlphanum = true ∨ c = '_' := by
  rw [fieldIdent_eq, String.toList_ofList] at h
  rcases mem_escaped h with h | rfl
  · rcases mem_intercalate h with h | ⟨word, hword, h⟩
    · exact Or.inr (List.mem_singleton.1 h)
    · exact Or.inl (((identWords_spec s).2 word hword).2 c h)
  · exact Or.inr rfl

/-- No keyword begins or ends with an underscore. -/
theorem isKeyword_escaped (name : List Char) :
    isKeyword (String.ofList (escaped name)) = false := by
  have hkeywords : ∀ k ∈ keywords, k.toList.head? ≠ some '_' ∧ k.toList.getLast? ≠ some '_' := by
    decide
  have hfree : ∀ t : List Char, t.head? = some '_' ∨ t.getLast? = some '_' →
      isKeyword (String.ofList t) = false := by
    intro t ht
    refine Bool.eq_false_iff.2 fun hk => ?_
    obtain ⟨hhead, hlast⟩ := hkeywords _ (List.contains_iff_mem.1 hk)
    rw [String.toList_ofList] at hhead hlast
    exact ht.elim hhead hlast
  unfold escaped
  split
  · exact hfree _ (Or.inr (by simp))
  · split
    · exact hfree _ (Or.inl rfl)
    · rename_i hname _
      simpa using hname

theorem isKeyword_fieldIdent (s : String) : isKeyword (fieldIdent s) = false := by
  rw [fieldIdent_eq]
  exact isKeyword_escaped _

end Identifiers

end Naming
end ApiContract
