import ApiContract.Emit.Type
import Mathlib.Data.List.Induction

/-!
# Paths in generated code

**Input:** code, and one of the two words with which paths to models begin.

Code is read token by token.  A path begins where the word stands behind anything but `::`, and the
name behind it is the one that follows after `::`.  What is read so far matters only by its last
tokens (`Place`).

**Results:**

* `mem_pathsFrom`: reading code finds the names of all paths that begin with the word (`Mentions`);
* `Fits`: code in which all these names are allowed, wherever it stands; one rule for each way in
  which code is put together.
-/

namespace ApiContract
namespace Code

/-! ## Reading -/

/-- The last tokens that have been read. -/
inductive Place
  | plain
  | colon
  | colons
  /-- The word with which a path begins. -/
  | head
  | headColon
  | headColons
deriving DecidableEq

namespace Place

/-- A token more. -/
def after (w : String) (p : Place) : Token → Place
  | .word s => if s = w ∧ p ≠ .colons ∧ p ≠ .headColons then .head else .plain
  | .text _ => .plain
  | .mark c =>
    if c = ':' then
      match p with
      | .plain => .colon
      | .colon => .colons
      | .colons => .colons
      | .head => .headColon
      | .headColon => .headColons
      | .headColons => .colons
    else .plain

/-- The name of a path, if a token is one. -/
def named : Place → Token → List String
  | .headColons, .word s => [s]
  | _, _ => []

end Place

/-- The last tokens when code has been read. -/
def placeAfter (w : String) (p : Place) (c : Code) : Place :=
  c.foldl (Place.after w) p

/-- The names of the paths in code. -/
def pathsFrom (w : String) : Place → Code → List String
  | _, [] => []
  | p, t :: c => p.named t ++ pathsFrom w (p.after w t) c

/-- A path in code begins with a word and names something in it. -/
def Mentions (w : String) (c : Code) (x : String) : Prop :=
  ∃ before after, c = before ++ (word w ++ flat "::" ++ word x) ++ after ∧ ¬ flat "::" <:+ before

section Reading

variable {w x : String} {p : Place} {a b c : Code}

theorem placeAfter_append (w : String) (p : Place) (a b : Code) :
    placeAfter w p (a ++ b) = placeAfter w (placeAfter w p a) b :=
  List.foldl_append

theorem pathsFrom_append (w : String) (p : Place) (a b : Code) :
    pathsFrom w p (a ++ b) = pathsFrom w p a ++ pathsFrom w (placeAfter w p a) b := by
  induction a generalizing p with
  | nil => rfl
  | cons t a ih =>
      rw [List.cons_append, pathsFrom, pathsFrom, ih, List.append_assoc]
      rfl

/-- Colons are only remembered where they have been read. -/
theorem suffix_of_placeAfter (w : String) (c : Code) :
    (placeAfter w .plain c = .colon ∨ placeAfter w .plain c = .headColon → [.mark ':'] <:+ c) ∧
      (placeAfter w .plain c = .colons ∨ placeAfter w .plain c = .headColons →
        flat "::" <:+ c) := by
  have hcolons : flat "::" = [.mark ':'] ++ [.mark ':'] := rfl
  have hlast : [.mark ':'] <:+ flat "::" := ⟨[.mark ':'], rfl⟩
  induction c using List.reverseRecOn with
  | nil =>
      constructor
      · rintro (h | h) <;> cases h
      · rintro (h | h) <;> cases h
  | append_singleton c t ih =>
      have hstep : placeAfter w .plain (c ++ [t]) = (placeAfter w .plain c).after w t :=
        placeAfter_append w .plain c [t]
      rw [hstep]
      generalize placeAfter w .plain c = p at ih
      -- After anything but a colon no colon is remembered.
      by_cases ht : t = .mark ':'
      · obtain rfl := ht
        refine ⟨fun _ => List.suffix_append _ _, fun h => ?_⟩
        have hone : [.mark ':'] <:+ c := by
          cases p with
          | plain => rcases h with h | h <;> cases h
          | head => rcases h with h | h <;> cases h
          | colon => exact ih.1 (Or.inl rfl)
          | headColon => exact ih.1 (Or.inr rfl)
          | colons => exact hlast.trans (ih.2 (Or.inl rfl))
          | headColons => exact hlast.trans (ih.2 (Or.inr rfl))
        obtain ⟨before, rfl⟩ := hone
        exact ⟨before, by rw [hcolons, List.append_assoc]⟩
      · have hnone : p.after w t = .head ∨ p.after w t = .plain := by
          cases t with
          | word s =>
              rw [Place.after]
              split
              · exact Or.inl rfl
              · exact Or.inr rfl
          | text s => exact Or.inr rfl
          | mark ch => exact Or.inr (if_neg fun h => ht (congrArg Token.mark h))
        rcases hnone with h | h <;> rw [h] <;> simp

/-- Reading finds the names of all paths. -/
theorem mem_pathsFrom (h : Mentions w c x) : x ∈ pathsFrom w .plain c := by
  obtain ⟨before, after, rfl, hbefore⟩ := h
  have hcolons : ∀ p : Place, p.after w (.mark ':') = match p with
      | .plain => .colon
      | .colon => .colons
      | .colons => .colons
      | .head => .headColon
      | .headColon => .headColons
      | .headColons => .colons := fun _ => rfl
  have hplace := (suffix_of_placeAfter w before).2
  generalize hp : placeAfter w .plain before = p at hplace
  have hhead : p.after w (.word w) = .head := by
    refine if_pos ⟨rfl, fun he => ?_, fun he => ?_⟩
    · exact hbefore (hplace (Or.inl he))
    · exact hbefore (hplace (Or.inr he))
  have hpath : word w ++ flat "::" ++ word x =
      [.word w, .mark ':', .mark ':', .word x] := rfl
  rw [pathsFrom_append, pathsFrom_append, hp, hpath]
  refine List.mem_append_left _ (List.mem_append_right _ ?_)
  simp only [pathsFrom, hhead, hcolons]
  simp [Place.named]

end Reading

theorem intercalate_cons (separator c : Code) (cs : List Code) :
    List.intercalate separator (c :: cs) = c ++ cs.flatMap (separator ++ ·) := by
  induction cs generalizing c with
  | nil => simp [List.intercalate]
  | cons c' cs ih =>
      have h := ih c'
      simp only [List.intercalate, List.intersperse_cons_cons, List.flatten_cons] at h ⊢
      rw [h, List.flatMap_cons, List.append_assoc]

/-! ## Judgements -/

/-- The words with which paths to models begin, or to what stands beside them. -/
def pathWords : List String :=
  ["models", "super"]

/-- Places between paths: with a word right before, or without one. -/
def places : Bool → List Place
  | true => [.plain, .colon, .headColon, .head]
  | false => [.plain, .colon, .headColon]

/-- Code that begins no path and names nothing, at the given places. -/
def Quiet (before : List Place) (c : Code) : Prop :=
  ∀ w ∈ pathWords, ∀ p ∈ before, placeAfter w p c ∈ places false ∧ pathsFrom w p c = []

instance (before : List Place) (c : Code) : Decidable (Quiet before c) :=
  inferInstanceAs (Decidable (∀ w ∈ pathWords, ∀ p ∈ before, _ ∧ _))

/-- Code that may stand between paths, even behind a word if `before` says so, and names only what
is allowed.  It may end in a word only if `behind` says so. -/
def Fits (w : String) (allowed : String → Prop) (before : Bool) (c : Code) (behind : Bool) : Prop :=
  ∀ p ∈ places before, placeAfter w p c ∈ places behind ∧ ∀ x ∈ pathsFrom w p c, allowed x

section Judgements

variable {w : String} {allowed : String → Prop} {i m o : Bool} {a b c : Code}

theorem places_subset (i : Bool) : places i ⊆ places true ∧ places false ⊆ places i := by
  cases i <;> decide

namespace Fits

/-- Code that names only what is allowed mentions nothing else. -/
theorem allowed_of_mentions (h : Fits w allowed i c o) {x : String} (hx : Mentions w c x) :
    allowed x := by
  have hplain : Place.plain ∈ places i := (places_subset i).2 (by decide)
  exact (h .plain hplain).2 x (mem_pathsFrom hx)

theorem nil : Fits w allowed i [] i :=
  fun _ hp => ⟨hp, fun _ hx => nomatch hx⟩

theorem append (ha : Fits w allowed i a m) (hb : Fits w allowed m b o) :
    Fits w allowed i (a ++ b) o := by
  intro p hp
  obtain ⟨hplace, hnames⟩ := ha p hp
  obtain ⟨hplace', hnames'⟩ := hb _ hplace
  rw [placeAfter_append, pathsFrom_append]
  refine ⟨hplace', fun x hx => ?_⟩
  rcases List.mem_append.1 hx with hx | hx
  · exact hnames x hx
  · exact hnames' x hx

/-- What may stand behind a word may stand anywhere. -/
theorem anywhere (h : Fits w allowed true c o) : Fits w allowed i c o :=
  fun p hp => h p ((places_subset i).1 hp)

/-- What does not end in a word may stand before anything. -/
theorem closed (h : Fits w allowed i c false) : Fits w allowed i c o := by
  intro p hp
  obtain ⟨hplace, hnames⟩ := h p hp
  exact ⟨(places_subset o).2 hplace, hnames⟩

theorem ite {t : Prop} [Decidable t] (ha : Fits w allowed i a o) (hb : Fits w allowed i b o) :
    Fits w allowed i (if t then a else b) o := by
  split
  · exact ha
  · exact hb

theorem flatMap {α : Type} {f : α → Code} {as : List α}
    (h : ∀ e ∈ as, Fits w allowed i (f e) i) : Fits w allowed i (as.flatMap f) i := by
  induction as with
  | nil => exact .nil
  | cons e as ih =>
      rw [List.flatMap_cons]
      exact (h e List.mem_cons_self).append (ih fun e' he => h e' (List.mem_cons_of_mem _ he))

theorem word (s : String) : Fits w allowed true (Code.word s) true := by
  intro p hp
  have hnone : pathsFrom w p (Code.word s) = [] := by
    revert p
    simp [places, Code.word, pathsFrom, Place.named]
  refine ⟨?_, fun x hx => by rw [hnone] at hx; cases hx⟩
  have hplace : placeAfter w p (Code.word s) = .head ∨ placeAfter w p (Code.word s) = .plain := by
    change p.after w (.word s) = _ ∨ p.after w (.word s) = _
    rw [Place.after]
    split
    · exact Or.inl rfl
    · exact Or.inr rfl
  rcases hplace with h | h <;> rw [h] <;> decide

/-- A mark that is no colon ends what is before it. -/
theorem mark {ch : Char} (hch : ch ≠ ':') : Fits w allowed true [.mark ch] o := by
  refine closed fun p hp => ?_
  have hplace : placeAfter w p [.mark ch] = .plain := if_neg hch
  have hnone : pathsFrom w p [.mark ch] = [] := by
    cases p <;> rfl
  rw [hplace, hnone]
  exact ⟨by decide, fun x hx => nomatch hx⟩

theorem literal (s : String) : Fits w allowed true (Code.literal s) o := by
  refine closed fun p hp => ?_
  have hnone : pathsFrom w p (Code.literal s) = [] := by
    cases p <;> rfl
  rw [hnone]
  exact ⟨by simp [placeAfter, Code.literal, Place.after, places], fun x hx => nomatch hx⟩

theorem of_quiet (hw : w ∈ pathWords) (h : Quiet (places i) c) : Fits w allowed i c o := by
  refine closed fun p hp => ?_
  obtain ⟨hplace, hnone⟩ := h w hw p hp
  rw [hnone]
  exact ⟨hplace, fun x hx => nomatch hx⟩

/-- Words of a template that may stand anywhere. -/
theorem flat (hw : w ∈ pathWords) {s : String} (h : Quiet (places true) (Code.flat s)) :
    Fits w allowed true (Code.flat s) o :=
  of_quiet hw h

/-- Words of a template that may not stand behind a word, since they begin with `::`. -/
theorem rooted (hw : w ∈ pathWords) {s : String} (h : Quiet (places false) (Code.flat s)) :
    Fits w allowed false (Code.flat s) o :=
  of_quiet hw h

/-- A word, with a template behind it that may begin with a colon. -/
theorem label (hw : w ∈ pathWords) (n : String) {s : String}
    (hs : Quiet [.plain, .head] (Code.flat s)) :
    Fits w allowed true (Code.word n ++ Code.flat s) o := by
  refine closed fun p hp => ?_
  have hword : Fits w allowed true (Code.word n) true := Fits.word n
  obtain ⟨-, hnames⟩ := hword p hp
  have hplace : placeAfter w p (Code.word n) ∈ [Place.plain, .head] := by
    change p.after w (.word n) ∈ _
    rw [Place.after]
    split <;> simp
  obtain ⟨hplace', hnone⟩ := hs w hw _ hplace
  rw [placeAfter_append, pathsFrom_append, hnone, List.append_nil]
  exact ⟨hplace', hnames⟩

/-- The same behind other code. -/
theorem labelled (ha : Fits w allowed i a true) (hw : w ∈ pathWords) (n : String) {s : String}
    (hs : Quiet [.plain, .head] (Code.flat s)) :
    Fits w allowed i (a ++ Code.word n ++ Code.flat s) o := by
  rw [List.append_assoc]
  exact ha.append (label hw n hs)

/-- A word between two templates. -/
theorem between (hw : w ∈ pathWords) {s t : String} (hs : Quiet (places true) (Code.flat s))
    (n : String) (ht : Quiet [.plain, .head] (Code.flat t)) :
    Fits w allowed true (Code.flat s ++ Code.word n ++ Code.flat t) o :=
  (flat hw hs).labelled hw n ht

/-- A path may go on behind the name of a model. -/
theorem segment (ha : Fits w allowed i a false) (n : String) :
    Fits w allowed i (a ++ Code.flat "::" ++ Code.word n) o := by
  rw [List.append_assoc]
  refine ha.append (closed fun p hp => ?_)
  have hcolons : Code.flat "::" ++ Code.word n = [.mark ':', .mark ':', .word n] := rfl
  rw [hcolons]
  revert p
  simp [places, placeAfter, pathsFrom, Place.after, Place.named]

theorem commas {cs : List Code} (h : ∀ c ∈ cs, Fits w allowed false c true) :
    Fits w allowed false (commas cs) true := by
  cases cs with
  | nil => exact closed nil
  | cons c cs =>
      have hmore : Fits w allowed true (cs.flatMap ([.mark ','] ++ ·)) true :=
        flatMap fun e he => (mark (by decide)).append (h e (List.mem_cons_of_mem c he))
      rw [Code.commas, intercalate_cons]
      exact (h c List.mem_cons_self).append hmore

section Delimiters

variable (h : Fits w allowed false c true)

include h

theorem braces : Fits w allowed true (braces c) o :=
  (mark (by decide : '\x7b' ≠ ':')).append (h.append (mark (by decide : '\x7d' ≠ ':')))

theorem parens : Fits w allowed true (parens c) o :=
  (mark (by decide : '(' ≠ ':')).append (h.append (mark (by decide : ')' ≠ ':')))

theorem brackets : Fits w allowed true (brackets c) o :=
  (mark (by decide : '[' ≠ ':')).append (h.append (mark (by decide : ']' ≠ ':')))

theorem angles : Fits w allowed true (angles c) o :=
  (mark (by decide : '<' ≠ ':')).append (h.append (mark (by decide : '>' ≠ ':')))

end Delimiters

end Fits

end Judgements

end Code
end ApiContract
