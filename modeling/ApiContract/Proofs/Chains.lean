import ApiContract.Proofs.References
import Mathlib.Data.List.Perm.Subperm

/-!
# Chains of pointers

An entry of a table may itself be a pointer.  A chain follows pointers from entry to entry until a
descriptor of another kind is found.

**Results:**

* `Chain.unique`, `Chain.nodup`: a descriptor starts at most one chain, and no pointer occurs twice
  on it;
* `Chain.not_transGen_refers`: a chain that ends in something without pointers begins on no cycle;
* `resolve?_eq_some_iff`: `resolve?` finds the end of every chain, however long, and nothing else.
-/

namespace ApiContract
namespace RefTable

/-- The pointers that are followed from a descriptor, and what stands behind the last one. -/
inductive Chain (t : RefTable) : Descriptor → List String → Descriptor → Prop
  /-- A descriptor that is no pointer stands for itself. -/
  | here {u : Descriptor} : u.pointer? = none → Chain t u [] u
  /-- A pointer stands for what its entry stands for. -/
  | step {p : String} {u v : Descriptor} {ps : List String} :
      t.get? p = some u → Chain t u ps v → Chain t (.ref p) (p :: ps) v

namespace Chain

variable {t : RefTable} {d u v : Descriptor} {ps qs : List String} {p : String}

/-- A descriptor starts at most one chain. -/
theorem unique (h : Chain t d ps u) (h' : Chain t d qs v) : ps = qs ∧ u = v := by
  induction h generalizing qs with
  | here hu =>
      cases h' with
      | here => exact ⟨rfl, rfl⟩
      | step => simp [Descriptor.pointer?] at hu
  | step hg _ ih =>
      cases h' with
      | here hu => simp [Descriptor.pointer?] at hu
      | step hg' hc =>
          obtain rfl := Option.some.inj (hg.symm.trans hg')
          obtain ⟨rfl, rfl⟩ := ih hc
          exact ⟨rfl, rfl⟩

/-- A chain ends in a descriptor that is no pointer. -/
theorem pointer?_end (h : Chain t d ps u) : u.pointer? = none := by
  induction h with
  | here hu => exact hu
  | step _ _ ih => exact ih

/-- What stands at the end of a chain is where it begins, or an entry. -/
theorem eq_or_entry (h : Chain t d ps u) : u = d ∨ ∃ q ∈ ps, t.get? q = some u := by
  induction h with
  | here => exact Or.inl rfl
  | @step p _ _ _ hg _ ih =>
      rcases ih with rfl | ⟨q, hq, hu⟩
      · exact Or.inr ⟨p, List.mem_cons_self, hg⟩
      · exact Or.inr ⟨q, List.mem_cons_of_mem p hq, hu⟩

/-- What follows a pointer of a chain is the chain of that pointer. -/
theorem of_mem (h : Chain t d ps u) (hp : p ∈ ps) :
    ∃ before after, ps = before ++ p :: after ∧ Chain t (.ref p) (p :: after) u := by
  induction h with
  | here => simp at hp
  | @step q _ _ qs hg hc ih =>
      rcases List.mem_cons.1 hp with rfl | hp
      · exact ⟨[], qs, rfl, .step hg hc⟩
      · obtain ⟨before, after, rfl, hc'⟩ := ih hp
        exact ⟨q :: before, after, rfl, hc'⟩

/-- No pointer occurs twice on a chain. -/
theorem nodup (h : Chain t d ps u) : ps.Nodup := by
  induction h with
  | here => exact List.nodup_nil
  | @step p _ _ ps hg hc ih =>
      refine List.nodup_cons.2 ⟨fun hp => ?_, ih⟩
      -- The chain from `p` would be a proper part of itself.
      obtain ⟨before, after, rfl, hc'⟩ := hc.of_mem hp
      have he := (unique (.step hg hc) hc').1
      have hl := congrArg List.length he
      simp at hl
      omega

theorem subset_keys (h : Chain t d ps u) : ps ⊆ t.keys := by
  induction h with
  | here => simp
  | step hg _ ih => exact List.cons_subset.2 ⟨mem_keys_of_get? hg, ih⟩

/-- On a chain that ends in something without pointers, a pointer leads to the next one only. -/
theorem of_refers (h : Chain t (.ref p) ps u) (hu : u.pointers = []) {q : String}
    (hr : t.Refers p q) : ∃ qs, ps = p :: qs ∧ Chain t (.ref q) qs u := by
  obtain ⟨v, hv, hq⟩ := hr
  cases h with
  | here hp => simp [Descriptor.pointer?] at hp
  | @step _ v' _ qs hg hc =>
      obtain rfl := Option.some.inj (hg.symm.trans hv)
      cases hc with
      | here =>
          rw [hu] at hq
          cases hq
      | @step next _ _ _ hg' hc' =>
          obtain rfl : q = next := by simpa using hq
          exact ⟨_, rfl, .step hg' hc'⟩

/-- A pointer whose chain ends in something without pointers lies on no cycle. -/
theorem not_transGen_refers (h : Chain t (.ref p) ps u) (hu : u.pointers = []) :
    ¬ Relation.TransGen t.Refers p p := by
  have hshorter : ∀ q, Relation.TransGen t.Refers p q →
      ∃ qs, Chain t (.ref q) qs u ∧ qs.length < ps.length := by
    intro q hq
    induction hq with
    | single hr =>
        obtain ⟨qs, rfl, hc⟩ := h.of_refers hu hr
        exact ⟨qs, hc, by simp⟩
    | tail _ hr ih =>
        obtain ⟨qs, hc, hlt⟩ := ih
        obtain ⟨rs, rfl, hc'⟩ := hc.of_refers hu hr
        exact ⟨rs, hc', Nat.lt_of_succ_lt hlt⟩
  intro hcycle
  obtain ⟨qs, hc, hlt⟩ := hshorter p hcycle
  rw [(h.unique hc).1] at hlt
  exact Nat.lt_irrefl _ hlt

/-- A chain is at most as long as the table. -/
theorem length_le (h : Chain t d ps u) : ps.length ≤ t.size := by
  have := (List.subperm_of_subset h.nodup h.subset_keys).length_le
  simpa [keys, size] using this

end Chain

theorem follow?_of_pointer?_eq_none (t : RefTable) {u : Descriptor} (hu : u.pointer? = none)
    (steps : Nat) : t.follow? steps u = some u := by
  cases u <;> first | (cases steps <;> rfl) | simp [Descriptor.pointer?] at hu

theorem follow?_of_chain {t : RefTable} {d u : Descriptor} {ps : List String} (h : Chain t d ps u)
    {steps : Nat} (hs : ps.length ≤ steps) : t.follow? steps d = some u := by
  induction h generalizing steps with
  | here hu => exact t.follow?_of_pointer?_eq_none hu steps
  | step hg _ ih =>
      obtain ⟨steps, rfl⟩ : ∃ n, steps = n + 1 := ⟨steps - 1, by simp at hs; omega⟩
      have hs' := Nat.le_of_succ_le_succ hs
      simp [follow?, hg, ih hs']

theorem exists_chain_of_follow? {t : RefTable} {d u : Descriptor} {steps : Nat}
    (h : t.follow? steps d = some u) : ∃ ps, Chain t d ps u := by
  induction steps generalizing d with
  | zero =>
      cases d <;> simp only [follow?, Option.some.injEq, reduceCtorEq] at h <;>
        exact ⟨[], h ▸ .here rfl⟩
  | succ steps ih =>
      cases d with
      | ref p =>
          obtain ⟨v, hv, hu⟩ := Option.bind_eq_some_iff.1 h
          obtain ⟨ps, hc⟩ := ih hu
          exact ⟨p :: ps, .step hv hc⟩
      | _ =>
          simp only [follow?, Option.some.injEq] at h
          exact ⟨[], h ▸ .here rfl⟩

/-- Following pointers finds the end of a chain, and nothing where there is none. -/
theorem resolve?_eq_some_iff {t : RefTable} {d u : Descriptor} :
    t.resolve? d = some u ↔ ∃ ps, Chain t d ps u := by
  constructor
  · exact exists_chain_of_follow?
  · rintro ⟨ps, hc⟩
    exact follow?_of_chain hc hc.length_le

end RefTable
end ApiContract
