import Mathlib.Data.List.Perm.Subperm
import Mathlib.Logic.Relation

/-!
# Following steps to their end

**Input:** a partial function, which gives what comes after a thing, and a list of all things that
something comes after.

Steps from a thing stop at one that nothing comes after, or they go in circles.  Which of the two
will happen cannot be seen from the thing, but a way without repetitions is no longer than the list.

**Results:**

* `EndsIn.unique`, `not_circles`: steps end in one place at most, and not if they go in circles;
* `exists_way_or_circles`: they go in circles or end after as many steps as there are things in the
  list;
* `length_le_of_way`: no fewer steps are enough if every thing of the list is passed.
-/

namespace ApiContract
namespace Steps

variable {α : Type} {next : α → Option α} {a b c : α} {passed : List α}

/-- One thing comes after another. -/
def Step (next : α → Option α) (a b : α) : Prop :=
  next a = some b

/-- Some steps, or none, lead from one thing to another. -/
abbrev Reaches (next : α → Option α) : α → α → Prop :=
  Relation.ReflTransGen (Step next)

/-- Steps lead to a thing that nothing comes after. -/
structure EndsIn (next : α → Option α) (a b : α) : Prop where
  reaches : Reaches next a b
  stops : next b = none

/-- Steps lead to a thing from which they lead to it again. -/
def Circles (next : α → Option α) (a : α) : Prop :=
  ∃ b, Reaches next a b ∧ Relation.TransGen (Step next) b b

/-- The things that are passed, one after the other, before another is reached. -/
inductive Way (next : α → Option α) : α → List α → α → Prop
  | here (a : α) : Way next a [] a
  | step {a b c : α} {passed : List α} : next a = some b → Way next b passed c →
      Way next a (a :: passed) c

/-! ## Ends -/

theorem Circles.of_step (h : next a = some b) (hb : Circles next b) : Circles next a := by
  obtain ⟨c, hreaches, hcircle⟩ := hb
  exact ⟨c, .head h hreaches, hcircle⟩

/-- Where steps go in circles, there is a step, and after it they still do. -/
theorem Circles.exists_step (h : Circles next a) : ∃ b, next a = some b ∧ Circles next b := by
  obtain ⟨c, hreaches, hcircle⟩ := h
  rcases Relation.ReflTransGen.cases_head hreaches with rfl | ⟨b, hstep, hb⟩
  · obtain ⟨b, hstep, hb⟩ := Relation.TransGen.head'_iff.1 hcircle
    exact ⟨b, hstep, a, hb, hcircle⟩
  · exact ⟨b, hstep, c, hb, hcircle⟩

/-- What comes after a thing has the same end. -/
theorem EndsIn.after (h : EndsIn next a c) (hstep : next a = some b) : EndsIn next b c := by
  rcases Relation.ReflTransGen.cases_head h.reaches with rfl | ⟨b', hstep', hb⟩
  · rw [h.stops] at hstep
    cases hstep
  · obtain rfl := Option.some.inj (hstep'.symm.trans hstep)
    exact ⟨hb, h.stops⟩

/-- Wherever steps lead, they have the same end. -/
theorem EndsIn.of_reaches (h : EndsIn next a c) (hb : Reaches next a b) : EndsIn next b c := by
  induction hb with
  | refl => exact h
  | tail _ hstep ih => exact ih.after hstep

theorem EndsIn.unique (h : EndsIn next a b) (h' : EndsIn next a c) : b = c := by
  rcases Relation.ReflTransGen.cases_head (h'.of_reaches h.reaches).reaches with rfl | ⟨_, hstep, -⟩
  · rfl
  · cases h.stops.symm.trans hstep

/-- Steps that end do not go in circles. -/
theorem EndsIn.not_circles (h : EndsIn next a b) : ¬ Circles next a := by
  obtain ⟨hreaches, hstops⟩ := h
  induction hreaches using Relation.ReflTransGen.head_induction_on with
  | refl =>
      intro hcircles
      obtain ⟨_, hstep, -⟩ := hcircles.exists_step
      cases hstops.symm.trans hstep
  | head hstep _ ih =>
      intro hcircles
      obtain ⟨_, hstep', hafter⟩ := hcircles.exists_step
      obtain rfl := Option.some.inj (hstep.symm.trans hstep')
      exact ih hafter

/-! ## Ways -/

namespace Way

theorem reaches (h : Way next a passed b) : Reaches next a b := by
  induction h with
  | here => exact .refl
  | step hstep _ ih => exact .head hstep ih

/-- Every thing but the end that steps lead to is passed. -/
theorem mem_or_eq (h : Way next a passed b) (hb : next b = none) (hc : Reaches next a c) :
    c ∈ passed ∨ c = b := by
  induction h with
  | here a =>
      rcases Relation.ReflTransGen.cases_head hc with rfl | ⟨_, hstep, -⟩
      · exact Or.inr rfl
      · cases hb.symm.trans hstep
  | step hstep _ ih =>
      rcases Relation.ReflTransGen.cases_head hc with rfl | ⟨_, hstep', hrest⟩
      · exact Or.inl List.mem_cons_self
      · obtain rfl := Option.some.inj (hstep.symm.trans hstep')
        exact (ih hb hrest).imp_left (List.mem_cons_of_mem _)

end Way

section Listed

variable {listed : List α}

/-- After different things have been passed, steps end as soon as the others are passed, or go in
circles.  The induction is on the number of the others. -/
theorem exists_way_or_circles_after (hlisted : ∀ a b, next a = some b → a ∈ listed) (others : Nat)
    {seen : List α} (hnodup : seen.Nodup) (hseen : seen ⊆ listed)
    (hlength : seen.length + others = listed.length)
    (hleads : ∀ b ∈ seen, Relation.TransGen (Step next) b a) :
    (∃ passed b, Way next a passed b ∧ next b = none ∧ passed.length ≤ others) ∨
      Circles next a := by
  induction others generalizing a seen with
  | zero =>
      cases hnext : next a with
      | none => exact Or.inl ⟨[], a, .here a, hnext, Nat.le_refl 0⟩
      | some b =>
          by_cases ha : a ∈ seen
          · exact Or.inr ⟨a, .refl, hleads a ha⟩
          -- One more thing would be too many.
          have hle := (List.subperm_of_subset (List.nodup_cons.2 ⟨ha, hnodup⟩)
            (List.cons_subset.2 ⟨hlisted a b hnext, hseen⟩)).length_le
          rw [List.length_cons] at hle
          omega
  | succ others ih =>
      cases hnext : next a with
      | none => exact Or.inl ⟨[], a, .here a, hnext, Nat.zero_le _⟩
      | some b =>
          by_cases ha : a ∈ seen
          · exact Or.inr ⟨a, .refl, hleads a ha⟩
          have hlength' : (a :: seen).length + others = listed.length := by
            rw [List.length_cons]
            omega
          have hleads' : ∀ c ∈ a :: seen, Relation.TransGen (Step next) c b :=
            List.forall_mem_cons.2 ⟨.single hnext, fun c hc => (hleads c hc).tail hnext⟩
          rcases ih (List.nodup_cons.2 ⟨ha, hnodup⟩)
              (List.cons_subset.2 ⟨hlisted a b hnext, hseen⟩) hlength' hleads' with
            ⟨passed, c, hway, hc, hle⟩ | hcircles
          · exact Or.inl ⟨a :: passed, c, .step hnext hway, hc, Nat.succ_le_succ hle⟩
          · exact Or.inr (hcircles.of_step hnext)

/-- Steps end after as many of them as there are things that something comes after, or go in
circles. -/
theorem exists_way_or_circles (hlisted : ∀ a b, next a = some b → a ∈ listed) (a : α) :
    (∃ passed b, Way next a passed b ∧ next b = none ∧ passed.length ≤ listed.length) ∨
      Circles next a :=
  exists_way_or_circles_after hlisted listed.length List.nodup_nil (List.nil_subset _)
    (Nat.zero_add _) (by simp)

/-- A way to an end on which different things lie that something comes after is as long as they are
many. -/
theorem length_le_of_way (h : Way next a passed b) (hb : next b = none) (hnodup : listed.Nodup)
    (hreaches : ∀ c ∈ listed, Reaches next a c ∧ next c ≠ none) :
    listed.length ≤ passed.length := by
  refine (List.subperm_of_subset hnodup fun c hc => ?_).length_le
  obtain ⟨hc, hne⟩ := hreaches c hc
  rcases h.mem_or_eq hb hc with hmem | rfl
  · exact hmem
  · exact absurd hb hne

end Listed

end Steps
end ApiContract
