import ApiContract.Proofs.Words

/-!
# Where words are cut

**Input:** any text.

Words are found in two steps: the runs of letters and digits first, and in each run the places where
a capital starts a word.  Such a place is known by the character before it and the one behind it, so
both steps are one pass over the text, and a word that stands alone is not cut: at its end fewer
characters can be seen than in the text, and what is not seen starts no word.

**Results:**

* `wordsOf_eq`: the two steps as one pass;
* `layout_iff`: the words of a text are the only ones that lie in it as words do;
* `words_cut`: no word is empty, nothing is lost but what is no letter or digit, no word reaches
  over such a character, and no word is cut again.
-/

namespace ApiContract
namespace Naming

/-! ## One pass -/

/-- Whether a word ends with a character, in front of the rest of a text. -/
def endsBefore (prev : Char) : List Char → Bool
  | [] => true
  | c :: rest => !c.isAlphanum || startsWord prev c rest.head?

/-- Some words with a character in front of the first. -/
def onto (c : Char) : List (List Char) → List (List Char)
  | [] => [[c]]
  | word :: later => (c :: word) :: later

/-- The words of a text, character by character. -/
def wordsFrom : List Char → List (List Char)
  | [] => []
  | c :: rest =>
    if c.isAlphanum then
      if endsBefore c rest then [c] :: wordsFrom rest else onto c (wordsFrom rest)
    else wordsFrom rest

section Pass

variable {p : Char → Bool} {c d prev : Char} {s rest : List Char}

theorem cutRun_cons_cons (c d : Char) (rest : List Char) : cutRun (c :: d :: rest) =
    if startsWord c d rest.head? then [c] :: cutRun (d :: rest)
    else onto c (cutRun (d :: rest)) := by
  rw [cutRun, wordsAfter, cutRun]
  dsimp only
  split
  · rfl
  · rfl

theorem runs_cons_of_neg (hc : p c = false) (s : List Char) : runs p (c :: s) = runs p s := by
  cases s with
  | nil => simp [runs, hc]
  | cons d s => simp [runs, hc]

theorem runs_singleton (hc : p c = true) : runs p [c] = [[c]] := by
  simp [runs, hc]

theorem runs_cons_cons_of_neg (hc : p c = true) (hd : p d = false) (s : List Char) :
    runs p (c :: d :: s) = [c] :: runs p (d :: s) := by
  simp [runs, hc, hd]

theorem runs_cons_cons (hc : p c = true) (hd : p d = true) (s : List Char) :
    runs p (c :: d :: s) = onto c (runs p (d :: s)) := by
  rw [runs, if_pos hc, if_pos hd]
  rfl

/-- The first run begins with the first character, and goes on if the text does. -/
theorem runs_cons_of_pos (hd : p d = true) (s : List Char) : ∃ run later,
    runs p (d :: s) = (d :: run) :: later ∧ run.head? = s.head?.filter p := by
  cases s with
  | nil => exact ⟨[], [], runs_singleton hd, rfl⟩
  | cons e s =>
      by_cases he : p e = true
      · have hruns : runs p (e :: s) ≠ [] := by
          intro hnil
          have hflatten := flatten_runs p (e :: s)
          rw [hnil, List.filter_cons_of_pos he] at hflatten
          cases hflatten
        obtain ⟨run, later, hrun⟩ := List.exists_cons_of_ne_nil hruns
        have hhead : run.head? = some e := by
          have hflatten := flatten_runs p (e :: s)
          rw [hrun, List.filter_cons_of_pos he, List.flatten_cons] at hflatten
          cases run with
          | nil => exact absurd rfl (runs_spec (hrun ▸ List.mem_cons_self)).1
          | cons f run => exact congrArg some (List.cons.inj hflatten).1
        refine ⟨run, later, by rw [runs_cons_cons hd he, hrun]; rfl, ?_⟩
        rw [hhead, List.head?_cons, Option.filter_some_pos he]
      · have he := Bool.eq_false_iff.2 he
        refine ⟨[], runs p (e :: s), runs_cons_cons_of_neg hd he s, ?_⟩
        rw [List.head?_cons, Option.filter_some_neg he]
        rfl

theorem isAlphanum_eq (c : Char) : c.isAlphanum = (c.isUpper || c.isLower || c.isDigit) :=
  rfl

/-- A character that is no letter starts no word with the one before it. -/
theorem startsWord_filter (prev c : Char) (next : Option Char) :
    startsWord prev c (next.filter Char.isAlphanum) = startsWord prev c next := by
  cases next with
  | none => rfl
  | some e =>
      by_cases he : e.isAlphanum = true
      · rw [Option.filter_some_pos he]
      · have hlower : e.isLower = false := by
          refine Bool.eq_false_iff.2 fun hlower => he ?_
          simp [isAlphanum_eq, hlower]
        rw [Option.filter_some_neg (Bool.eq_false_iff.2 he)]
        simp [startsWord, hlower]

theorem wordsOf_cons_cons (hc : c.isAlphanum = true) (hd : d.isAlphanum = true) (s : List Char) :
    wordsOf (c :: d :: s) =
      if startsWord c d s.head? then [c] :: wordsOf (d :: s) else onto c (wordsOf (d :: s)) := by
  obtain ⟨run, later, hrun, hhead⟩ := runs_cons_of_pos hd s
  have hfirst : runs Char.isAlphanum (c :: d :: s) = (c :: d :: run) :: later := by
    rw [runs_cons_cons hc hd, hrun]
    rfl
  rw [wordsOf, wordsOf, hfirst, hrun, List.flatMap_cons, List.flatMap_cons, cutRun_cons_cons, hhead,
    startsWord_filter]
  split
  · rfl
  · rfl

/-- Runs and the words in them are found in one pass. -/
theorem wordsOf_eq (s : List Char) : wordsOf s = wordsFrom s := by
  induction s with
  | nil => rfl
  | cons c s ih =>
      rw [wordsFrom, ← ih]
      by_cases hc : c.isAlphanum = true
      · rw [if_pos hc]
        cases s with
        | nil =>
            rw [wordsOf, runs_singleton hc]
            rfl
        | cons d s =>
            by_cases hd : d.isAlphanum = true
            · rw [wordsOf_cons_cons hc hd, endsBefore, hd, Bool.not_true, Bool.false_or]
            · have hd := Bool.eq_false_iff.2 hd
              rw [endsBefore, hd, Bool.not_false, Bool.true_or, if_pos rfl, wordsOf,
                runs_cons_cons_of_neg hc hd]
              rfl
      · rw [if_neg hc, wordsOf, runs_cons_of_neg (Bool.eq_false_iff.2 hc)]
        rfl

end Pass

/-! ## Words in a text -/

/-- A word of a text, in front of the rest of the text. -/
structure StandsBefore (rest word : List Char) : Prop where
  nonempty : word ≠ []
  /-- It holds letters and digits only. -/
  chars : ∀ c ∈ word, c.isAlphanum = true
  /-- No character in it starts a word. -/
  inner : ∀ front prev c back, word = front ++ prev :: c :: back →
    startsWord prev c (back ++ rest).head? = false
  /-- It goes on as far as it can. -/
  ends : ∀ front prev, word = front ++ [prev] → endsBefore prev rest = true

/-- How words lie in a text: what stands between them, in front of the first and behind the last is
no letter or digit. -/
inductive Layout : List Char → List (List Char) → Prop
  | done {gap : List Char} (hgap : ∀ c ∈ gap, c.isAlphanum = false) : Layout gap []
  | word {gap word rest : List Char} {later : List (List Char)}
      (hgap : ∀ c ∈ gap, c.isAlphanum = false) (hword : StandsBefore rest word)
      (hrest : Layout rest later) : Layout (gap ++ (word ++ rest)) (word :: later)

section Layouts

variable {c : Char} {s word rest gap : List Char} {ws : List (List Char)}

theorem StandsBefore.single (hc : c.isAlphanum = true) (hends : endsBefore c rest = true) :
    StandsBefore rest [c] where
  nonempty := List.cons_ne_nil _ _
  chars := List.forall_mem_singleton.2 hc
  inner := by
    intro front prev d back h
    have hlength := congrArg List.length h
    simp only [List.length_append, List.length_cons, List.length_nil] at hlength
    omega
  ends := by
    intro front prev h
    obtain ⟨-, hprev⟩ := List.append_eq_singleton_iff.1 h.symm |>.elim id (fun h => by simp at h)
    obtain rfl := List.singleton_inj.1 hprev
    exact hends

theorem StandsBefore.cons (hc : c.isAlphanum = true) (hgoes : endsBefore c (word ++ rest) = false)
    (h : StandsBefore rest word) : StandsBefore rest (c :: word) where
  nonempty := List.cons_ne_nil _ _
  chars := List.forall_mem_cons.2 ⟨hc, h.chars⟩
  inner := by
    intro front prev d back hword
    cases front with
    | nil =>
        obtain ⟨rfl, rfl⟩ := List.cons.inj hword
        rw [List.cons_append, endsBefore, Bool.or_eq_false_iff] at hgoes
        exact hgoes.2
    | cons e front => exact h.inner front prev d back (List.cons.inj hword).2
  ends := by
    intro front prev hword
    cases front with
    | nil => exact absurd (List.cons.inj hword).2 h.nonempty
    | cons e front => exact h.ends front prev (List.cons.inj hword).2

/-- A text may begin with a word. -/
theorem Layout.first (hword : StandsBefore rest word) (hrest : Layout rest ws) :
    Layout (word ++ rest) (word :: ws) :=
  .word (fun _ hc => absurd hc List.not_mem_nil) hword hrest

/-- A character that is no letter or digit is passed over. -/
theorem Layout.cons (hc : c.isAlphanum = false) (h : Layout s ws) : Layout (c :: s) ws := by
  cases h with
  | done hgap => exact .done (List.forall_mem_cons.2 ⟨hc, hgap⟩)
  | word hgap hword hrest => exact .word (List.forall_mem_cons.2 ⟨hc, hgap⟩) hword hrest

/-- A letter or digit goes into the first word if no word ends behind it. -/
theorem Layout.onto (hc : c.isAlphanum = true) (hgoes : endsBefore c s = false) (h : Layout s ws) :
    Layout (c :: s) (Naming.onto c ws) := by
  cases s with
  | nil => cases hgoes
  | cons d s =>
      have hd : d.isAlphanum = true := by
        rw [endsBefore, Bool.or_eq_false_iff] at hgoes
        simpa using hgoes.1
      generalize htext : d :: s = text at h
      cases h with
      | done hgap =>
          have hd' := hgap d (htext ▸ List.mem_cons_self)
          rw [hd] at hd'
          cases hd'
      | @word gap word rest later hgap hword hrest =>
          cases gap with
          | nil =>
              rw [List.nil_append] at htext ⊢
              rw [htext] at hgoes
              exact .first (hword.cons hc hgoes) hrest
          | cons e gap =>
              obtain ⟨rfl, -⟩ := List.cons.inj htext
              have hd' := hgap d List.mem_cons_self
              rw [hd] at hd'
              cases hd'

theorem layout_wordsFrom (s : List Char) : Layout s (wordsFrom s) := by
  induction s with
  | nil => exact .done nofun
  | cons c s ih =>
      unfold wordsFrom
      split
      · rename_i hc
        split
        · rename_i hends
          exact .first (.single hc hends) ih
        · rename_i hends
          exact ih.onto hc (Bool.eq_false_iff.2 hends)
      · rename_i hc
        exact ih.cons (Bool.eq_false_iff.2 hc)

theorem wordsFrom_gap (hgap : ∀ c ∈ gap, c.isAlphanum = false) (s : List Char) :
    wordsFrom (gap ++ s) = wordsFrom s := by
  induction gap with
  | nil => rfl
  | cons c gap ih =>
      obtain ⟨hc, hgap⟩ := List.forall_mem_cons.1 hgap
      rw [List.cons_append, wordsFrom, hc, if_neg Bool.false_ne_true, ih hgap]

theorem wordsFrom_append (h : StandsBefore rest word) :
    wordsFrom (word ++ rest) = word :: wordsFrom rest := by
  induction word with
  | nil => exact absurd rfl h.nonempty
  | cons c word ih =>
      obtain ⟨hc, hchars⟩ := List.forall_mem_cons.1 h.chars
      rw [List.cons_append, wordsFrom, if_pos hc]
      cases word with
      | nil =>
          have hends : endsBefore c ([] ++ rest) = true := h.ends [] c rfl
          rw [if_pos hends, List.nil_append]
      | cons d word =>
          have hgoes : endsBefore c (d :: word ++ rest) = false := by
            rw [List.cons_append, endsBefore, h.inner [] c d word rfl, hchars d List.mem_cons_self]
            rfl
          have hword : StandsBefore rest (d :: word) :=
            { nonempty := List.cons_ne_nil _ _
              chars := hchars
              inner := fun front prev e back he =>
                h.inner (c :: front) prev e back (by rw [he]; rfl)
              ends := fun front prev he => h.ends (c :: front) prev (by rw [he]; rfl) }
          rw [if_neg (Bool.eq_false_iff.1 hgoes), ih hword]
          rfl

/-- The words of a text are the only ones that lie in it as words do. -/
theorem layout_iff : Layout s ws ↔ wordsOf s = ws := by
  rw [wordsOf_eq]
  constructor
  · intro h
    induction h with
    | @done gap hgap =>
        rw [← List.append_nil gap, wordsFrom_gap hgap]
        rfl
    | word hgap hword _ ih => rw [wordsFrom_gap hgap, wordsFrom_append hword, ih]
  · rintro rfl
    exact layout_wordsFrom s

/-- A capital that starts a word does so whatever is behind it. -/
theorem startsWord_none {prev c : Char} {next : Option Char}
    (h : startsWord prev c next = false) : startsWord prev c none = false := by
  simp only [startsWord, Bool.and_eq_false_iff, Bool.or_eq_false_iff] at h ⊢
  exact h.imp_right fun h => ⟨h.1, Or.inl rfl⟩

/-- A word stays one when the rest of the text is left out. -/
theorem StandsBefore.alone (h : StandsBefore rest word) : StandsBefore [] word where
  nonempty := h.nonempty
  chars := h.chars
  inner := by
    intro front prev c back hword
    have hinner := h.inner front prev c back hword
    cases back with
    | nil => exact startsWord_none hinner
    | cons d back => exact hinner
  ends := fun _ _ _ => rfl

theorem Layout.standsBefore (h : Layout s ws) (hword : word ∈ ws) :
    ∃ rest, StandsBefore rest word := by
  induction h with
  | done => cases hword
  | word _ hfirst _ ih =>
      rcases List.mem_cons.1 hword with rfl | hword
      · exact ⟨_, hfirst⟩
      · exact ih hword

/-- A word is not cut again. -/
theorem wordsOf_of_mem (h : word ∈ wordsOf s) : wordsOf word = [word] := by
  obtain ⟨rest, hword⟩ := (layout_iff.2 rfl).standsBefore h
  have halone := wordsFrom_append hword.alone
  rw [List.append_nil] at halone
  rw [wordsOf_eq, halone]
  rfl

end Layouts

/-! ## Words of a text -/

/-- What is cut out of a text as its words. -/
structure CutInto (s : String) (ws : List String) : Prop where
  nonempty : ∀ w ∈ ws, w ≠ ""
  /-- Together they are the text without what is no letter or digit. -/
  kept : ws.flatMap String.toList = letters s
  /-- They lie one after another in the text, and what is no letter or digit lies between them. -/
  layout : Layout s.toList (ws.map String.toList)
  /-- No other words lie in the text so. -/
  only : ∀ vs : List String, Layout s.toList (vs.map String.toList) → vs = ws
  /-- No word is cut again. -/
  whole : ∀ w ∈ ws, words w = [w]

theorem toList_words (s : String) : (words s).map String.toList = wordsOf s.toList := by
  rw [words, List.map_map]
  exact (List.map_congr_left fun _ _ => String.toList_ofList).trans (List.map_id _)

/-- A text is cut into words without a loss, and no word can be cut again. -/
theorem words_cut (s : String) : CutInto s (words s) where
  nonempty := by
    intro w hw
    obtain ⟨word, hword, rfl⟩ := List.mem_map.1 hw
    have hne := (wordsOf_spec hword).1
    exact fun hempty => hne (String.ofList_injective hempty)
  kept := by
    rw [List.flatMap_def, toList_words, flatten_wordsOf, letters]
  layout := by
    rw [toList_words]
    exact layout_iff.2 rfl
  only := by
    intro vs hvs
    refine List.map_inj_right (fun _ _ => String.toList_inj.1) |>.1 ?_
    rw [toList_words, layout_iff.1 hvs]
  whole := by
    intro w hw
    obtain ⟨word, hword, rfl⟩ := List.mem_map.1 hw
    rw [words, String.toList_ofList, wordsOf_of_mem hword]
    rfl

example : words "get-HTTPClient v2é" = ["get", "HTTP", "Client", "v2"] := by
  decide

end Naming
end ApiContract
