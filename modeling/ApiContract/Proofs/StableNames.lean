import ApiContract.Proofs.TypeNames
import ApiContract.Proofs.WordCuts

/-!
# Names that are made of names

**Input:** any text.

What is made of a text, an identifier of a field or the name of a type, has the same words as the
text, but for the case of letters.  In an identifier the words stand between underscores and have no
capitals, so each is found again as one word.  In the name of a type they stand one behind the other
and may be cut elsewhere; still every word behind the first begins with a capital, wherever it is
cut.

**Results:**

* `wordsOf_append_cons`: the words on both sides of a character that is no letter or digit;
* `identWords_fieldIdent`: an identifier has the words that it was made of;
* `pascalChars_of_head`: letters and digits that begin with no small letter are in pascal case;
* `names_stable`: identifiers and names of types are legal, and are made into themselves.
-/

namespace ApiContract
namespace Naming

section Words

variable {c : Char} {s t : List Char}

/-! ## Words that are joined -/

theorem runs_append_cons {p : Char → Bool} (hc : p c = false) (s t : List Char) :
    runs p (s ++ c :: t) = runs p s ++ runs p t := by
  induction s with
  | nil => exact runs_cons_of_neg hc t
  | cons d s ih =>
      by_cases hd : p d = true
      · cases s with
        | nil =>
            rw [List.singleton_append, runs_cons_cons_of_neg hd hc, runs_cons_of_neg hc,
              runs_singleton hd]
            rfl
        | cons e s =>
            by_cases he : p e = true
            · obtain ⟨run, later, hrun, -⟩ := runs_cons_of_pos he s
              rw [List.cons_append, List.cons_append, runs_cons_cons hd he, runs_cons_cons hd he,
                ← List.cons_append, ih, hrun]
              rfl
            · have hcut := runs_cons_cons_of_neg hd (Bool.eq_false_iff.2 he)
              rw [List.cons_append, List.cons_append, hcut, hcut, ← List.cons_append, ih]
              rfl
      · have hpass := runs_cons_of_neg (Bool.eq_false_iff.2 hd)
        rw [List.cons_append, hpass, hpass, ih]

/-- A character that is no letter or digit stands between words. -/
theorem wordsOf_append_cons (hc : c.isAlphanum = false) (s t : List Char) :
    wordsOf (s ++ c :: t) = wordsOf s ++ wordsOf t := by
  rw [wordsOf, runs_append_cons hc, List.flatMap_append]
  rfl

/-- Without capitals, letters and digits are one word. -/
theorem wordsOf_of_small {word : List Char} (hne : word ≠ [])
    (h : ∀ c ∈ word, c.isAlphanum = true ∧ c.isUpper = false) : wordsOf word = [word] := by
  have hword : StandsBefore [] word :=
    { nonempty := hne
      chars := fun c hc => (h c hc).1
      inner := fun front prev c back he => by
        have hc : c ∈ word := by
          rw [he]
          simp
        rw [startsWord, (h c hc).2, Bool.false_and]
      ends := fun _ _ _ => rfl }
  have hlayout := Layout.first hword (.done fun _ hc => absurd hc List.not_mem_nil)
  rw [List.append_nil] at hlayout
  exact layout_iff.1 hlayout

theorem wordsOf_intercalate {ws : List (List Char)}
    (h : ∀ word ∈ ws, word ≠ [] ∧ ∀ c ∈ word, c.isAlphanum = true ∧ c.isUpper = false) :
    wordsOf (List.intercalate ['_'] ws) = ws := by
  induction ws with
  | nil => rfl
  | cons word ws ih =>
      obtain ⟨⟨hne, hword⟩, hws⟩ := List.forall_mem_cons.1 h
      cases ws with
      | nil => simpa using wordsOf_of_small hne hword
      | cons next ws =>
          rw [List.intercalate_cons_cons, List.append_assoc, List.singleton_append,
            wordsOf_append_cons (by decide), wordsOf_of_small hne hword, ih hws]
          rfl

/-- What makes words a legal identifier adds no word. -/
theorem wordsOf_escaped (name : List Char) : wordsOf (escaped name) = wordsOf name := by
  have hbehind : wordsOf (name ++ ['_']) = wordsOf name ++ wordsOf [] :=
    wordsOf_append_cons (by decide) name []
  have hfront : wordsOf ([] ++ '_' :: name) = wordsOf [] ++ wordsOf name :=
    wordsOf_append_cons (by decide) [] name
  unfold escaped
  split
  · exact hbehind.trans (List.append_nil _)
  · split
    · exact hfront
    · rfl

/-! ## Identifiers of fields -/

theorem isUpper_toLower (h : c.isAlphanum = true) : c.toLower.isUpper = false :=
  forall_of_ascii (fun c => c.toLower.isUpper = false) (by decide) h

theorem toLower_of_not_isUpper (h : c.isAlphanum = true) (hu : c.isUpper = false) : c.toLower = c :=
  forall_of_ascii (fun c => c.isUpper = false → c.toLower = c) (by decide) h hu

/-- The words of an identifier have no capitals. -/
theorem isUpper_of_mem_identWords {word : List Char} {s : String} (h : word ∈ identWords s)
    (hc : c ∈ word) : c.isUpper = false := by
  unfold identWords at h
  split at h
  · obtain rfl := List.mem_singleton.1 h
    have hall : "value".toList.all (!·.isUpper) = true := by decide
    simpa using List.all_eq_true.1 hall c hc
  · obtain ⟨w, hw, rfl⟩ := List.mem_map.1 h
    obtain ⟨d, hd, rfl⟩ := List.mem_map.1 hc
    exact isUpper_toLower ((wordsOf_spec hw).2 d hd)

/-- Between the underscores of an identifier its words are found again. -/
theorem wordsOf_fieldIdent (s : String) : wordsOf (fieldIdent s).toList = identWords s := by
  rw [fieldIdent_eq, String.toList_ofList, wordsOf_escaped]
  refine wordsOf_intercalate fun word hword => ?_
  obtain ⟨hne, hchars⟩ := (identWords_spec s).2 word hword
  exact ⟨hne, fun c hc => ⟨hchars c hc, isUpper_of_mem_identWords hword hc⟩⟩

/-- An identifier has the words that it was made of. -/
theorem identWords_fieldIdent (s : String) : identWords (fieldIdent s) = identWords s := by
  obtain ⟨hne, hwords⟩ := identWords_spec s
  have hsmall : ∀ word ∈ identWords s, word.map Char.toLower = word := by
    intro word hword
    refine (List.map_congr_left fun c hc => ?_).trans (List.map_id _)
    exact toLower_of_not_isUpper ((hwords word hword).2 c hc) (isUpper_of_mem_identWords hword hc)
  have hfound : identWords (fieldIdent s) =
      (wordsOf (fieldIdent s).toList).map (·.map Char.toLower) := by
    refine if_neg ?_
    rw [wordsOf_fieldIdent]
    exact hne
  rw [hfound, wordsOf_fieldIdent]
  exact (List.map_congr_left hsmall).trans (List.map_id _)

/-- An identifier is made into itself. -/
theorem fieldIdent_fieldIdent (s : String) : fieldIdent (fieldIdent s) = fieldIdent s :=
  fieldIdent_eq_iff.2 (identWords_fieldIdent s)

/-- An identifier has small letters, digits and underscores only. -/
theorem small_of_mem_fieldIdent {s : String} (h : c ∈ (fieldIdent s).toList) :
    c.isLower = true ∨ c.isDigit = true ∨ c = '_' := by
  rw [fieldIdent_eq, String.toList_ofList] at h
  rcases mem_escaped h with h | rfl
  · rcases mem_intercalate h with h | ⟨word, hword, h⟩
    · exact Or.inr (Or.inr (List.mem_singleton.1 h))
    · have halnum := ((identWords_spec s).2 word hword).2 c h
      have hupper := isUpper_of_mem_identWords hword h
      rw [isAlphanum_eq, hupper, Bool.false_or, Bool.or_eq_true] at halnum
      exact halnum.imp_right Or.inl
  · exact Or.inr (Or.inr rfl)

/-! ## Pascal case -/

theorem toUpper_of_not_isLower (h : c.isAlphanum = true) (hl : c.isLower = false) : c.toUpper = c :=
  forall_of_ascii (fun c => c.isLower = false → c.toUpper = c) (by decide) h hl

theorem not_isLower_of_isUpper (h : c.isAlphanum = true) (hu : c.isUpper = true) :
    c.isLower = false :=
  forall_of_ascii (fun c => c.isUpper = true → c.isLower = false) (by decide) h hu

/-- A word that begins with no small letter is capitalized. -/
theorem capitalizeFirst_of_head {word : List Char} (hc : c.isAlphanum = true)
    (hl : c.isLower = false) : Text.capitalizeFirst (c :: word) = c :: word := by
  rw [Text.capitalizeFirst, capital_of_isAlphanum hc, toUpper_of_not_isLower hc hl]
  rfl

/-- A letter or digit begins the first word. -/
theorem wordsFrom_cons_of_pos (hc : c.isAlphanum = true) (s : List Char) :
    ∃ word later, wordsFrom (c :: s) = (c :: word) :: later := by
  rw [wordsFrom, if_pos hc]
  split
  · exact ⟨[], _, rfl⟩
  · cases wordsFrom s with
    | nil => exact ⟨[], [], rfl⟩
    | cons word later => exact ⟨word, later, rfl⟩

/-- Between letters and digits a word begins with a capital only. -/
theorem capitalizeFirst_of_mem_tail (hs : ∀ c ∈ s, c.isAlphanum = true) :
    ∀ word ∈ (wordsFrom s).tail, Text.capitalizeFirst word = word := by
  induction s with
  | nil => exact List.forall_mem_nil _
  | cons c s ih =>
      obtain ⟨hc, hs⟩ := List.forall_mem_cons.1 hs
      have hlater := ih hs
      cases s with
      | nil =>
          rw [wordsFrom, if_pos hc]
          exact List.forall_mem_nil _
      | cons d s =>
          have hd := hs d List.mem_cons_self
          obtain ⟨word, later, hfound⟩ := wordsFrom_cons_of_pos hd s
          rw [hfound] at hlater
          rw [wordsFrom, if_pos hc, hfound]
          split
          · rename_i hends
            rw [endsBefore, hd, Bool.not_true, Bool.false_or, startsWord, Bool.and_eq_true] at hends
            refine List.forall_mem_cons.2 ⟨?_, hlater⟩
            exact capitalizeFirst_of_head hd (not_isLower_of_isUpper hd hends.1)
          · exact hlater

/-- Letters and digits that begin with no small letter are in pascal case. -/
theorem pascalChars_of_head (hs : ∀ c ∈ s, c.isAlphanum = true)
    (hhead : ∀ c ∈ s.head?, c.isLower = false) : pascalChars s = s := by
  have hflatten := flatten_wordsOf s
  rw [List.filter_eq_self.2 hs] at hflatten
  have hcapital : ∀ word ∈ wordsOf s, Text.capitalizeFirst word = word := by
    cases s with
    | nil => exact nofun
    | cons c s =>
        have hc := hs c List.mem_cons_self
        have hlater := capitalizeFirst_of_mem_tail hs
        obtain ⟨word, later, hfound⟩ := wordsFrom_cons_of_pos hc s
        rw [hfound] at hlater
        rw [wordsOf_eq, hfound]
        exact List.forall_mem_cons.2 ⟨capitalizeFirst_of_head hc (hhead c rfl), hlater⟩
  rw [pascalChars, List.flatMap_def, List.map_congr_left hcapital, List.map_id', hflatten]

/-- Pascal case is in pascal case. -/
theorem pascalChars_pascalChars (s : List Char) : pascalChars (pascalChars s) = pascalChars s := by
  obtain ⟨hhead, hchars⟩ := pascalChars_spec s
  exact pascalChars_of_head hchars hhead

theorem pascalChars_eq_nil_iff : pascalChars s = [] ↔ ∀ c ∈ s, c.isAlphanum = false := by
  have hwords : pascalChars s = [] ↔ wordsOf s = [] := by
    rw [pascalChars, List.flatMap_eq_nil_iff]
    constructor
    · intro h
      refine List.eq_nil_iff_forall_not_mem.2 fun word hword => ?_
      obtain ⟨hne, hchars⟩ := wordsOf_spec hword
      exact (capitalizeFirst_spec hne hchars).1 (h word hword)
    · intro h
      rw [h]
      exact nofun
  have hflatten : wordsOf s = [] ↔ (wordsOf s).flatten = [] := by
    rw [List.flatten_eq_nil_iff]
    constructor
    · intro h
      rw [h]
      exact nofun
    · intro h
      refine List.eq_nil_iff_forall_not_mem.2 fun word hword => ?_
      exact (wordsOf_spec hword).1 (h word hword)
  rw [hwords, hflatten, flatten_wordsOf, List.filter_eq_nil_iff]
  simp only [Bool.not_eq_true]

/-! ## Names of types -/

/-- The name of a type depends on the text in pascal case only. -/
theorem typeName?_congr {s t : String} (h : pascalChars s.toList = pascalChars t.toList) :
    typeName? s = typeName? t := by
  rw [typeName?, typeName?, h]

/-- The name of a type is in pascal case but for underscores. -/
theorem pascalChars_of_typeName? {s t : String} (h : typeName? s = some t) :
    pascalChars t.toList = pascalChars s.toList := by
  have hfront : ∀ name : List Char, pascalChars ('_' :: name) = pascalChars name := by
    intro name
    have hwords := wordsOf_append_cons (c := '_') (by decide) [] name
    rw [List.nil_append] at hwords
    rw [pascalChars, hwords]
    rfl
  have hbehind : ∀ name : List Char, pascalChars (name ++ ['_']) = pascalChars name := by
    intro name
    have hwords := wordsOf_append_cons (c := '_') (by decide) name []
    rw [pascalChars, hwords]
    exact congrArg _ (List.append_nil _)
  obtain ⟨-, ⟨-, ht⟩ | ⟨-, ht | ⟨ht, -⟩⟩⟩ := typeName?_cases h
  · rw [ht, hfront, pascalChars_pascalChars]
  · rw [ht, hbehind, pascalChars_pascalChars]
  · rw [ht, pascalChars_pascalChars]

/-- The name of a type is made into itself. -/
theorem typeName?_of_typeName? {s t : String} (h : typeName? s = some t) : typeName? t = some t :=
  (typeName?_congr (pascalChars_of_typeName? h)).trans h

theorem typeName?_eq_none_iff {s : String} :
    typeName? s = none ↔ ∀ c ∈ s.toList, c.isAlphanum = false := by
  rw [← pascalChars_eq_nil_iff]
  unfold typeName?
  dsimp only
  split
  · rename_i hempty
    simpa using hempty
  · rename_i hne
    refine ⟨fun h => ?_, fun h => absurd (List.isEmpty_iff.2 h) hne⟩
    split at h
    · cases h
    · split at h
      · cases h
      · cases h

end Words

/-! ## Both kinds of names -/

/-- What is made of a text as a name. -/
structure NamesOf (s : String) : Prop where
  /-- The identifier of a field is legal, and no keyword. -/
  legal : Legal (fieldIdent s)
  /-- It has small letters, digits and underscores only. -/
  small : ∀ c ∈ (fieldIdent s).toList, c.isLower = true ∨ c.isDigit = true ∨ c = '_'
  notLone : fieldIdent s ≠ "_"
  /-- It is made into itself. -/
  stable : fieldIdent (fieldIdent s) = fieldIdent s
  /-- The name of a type, if there is one, can be used as it is, and is made into itself. -/
  type : ∀ t, typeName? s = some t → isTypeIdent t = true ∧ typeName? t = some t
  /-- There is none only where no letter or digit is left. -/
  untyped : typeName? s = none ↔ ∀ c ∈ s.toList, c.isAlphanum = false

/-- The names that are made of a text are legal, and are made into themselves. -/
theorem names_stable (s : String) : NamesOf s where
  legal := legal_fieldIdent s
  small := fun _ => small_of_mem_fieldIdent
  notLone := by
    intro hlone
    obtain ⟨c, rest, hc, hstart⟩ := (legal_fieldIdent s).starts
    rw [hlone] at hc
    obtain ⟨rfl, rfl⟩ := List.cons.inj hc
    rcases hstart with halpha | ⟨-, hrest⟩
    · revert halpha
      decide
    · exact hrest rfl
  stable := fieldIdent_fieldIdent s
  type := fun _ h => ⟨isTypeIdent_iff.2 (legal_of_typeName? h), typeName?_of_typeName? h⟩
  untyped := typeName?_eq_none_iff

/-- Words of a name may be cut elsewhere than those that it is made of. -/
example : typeName? "a-b C" = some "ABC" ∧ words "a-b C" = ["a", "b", "C"] ∧
    words "ABC" = ["ABC"] := by
  decide

end Naming
end ApiContract
