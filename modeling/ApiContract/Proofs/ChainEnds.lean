import ApiContract.Proofs.Chains
import ApiContract.Proofs.Steps

/-!
# Where chains of pointers lead

**Input:** any table, and a descriptor.

Looking up a pointer gives another descriptor, which may again be a pointer.  So lookups come to a
descriptor of another kind, to a pointer that has no entry, or to a pointer for the second time.
The table is not asked which of the three will happen: it is followed for as many steps as it has
entries.

**Results:**

* `endsIn_iff`: chains are what lookups go through on their way to an end;
* `ends_or_dangles_or_circles`: one of the three happens, since a chain without repetitions cannot
  be longer than the table;
* `resolve?_exact`: following pointers finds the end of lookups where they have one, and fails
  exactly where they come to a pointer without an entry or go in circles.
-/

namespace ApiContract

theorem Descriptor.eq_ref_of_pointer? {d : Descriptor} {p : String} (h : d.pointer? = some p) :
    d = .ref p := by
  cases d <;> simp [pointer?] at h
  rw [h]

namespace RefTable

variable {t : RefTable} {d u v : Descriptor} {ps : List String} {p : String} {steps : Nat}

/-! ## Lookups -/

/-- A pointer is looked up. -/
def Next (t : RefTable) (d u : Descriptor) : Prop :=
  ∃ p, d = .ref p ∧ t.get? p = some u

/-- Some lookups, or none, give another descriptor. -/
abbrev ComesTo (t : RefTable) : Descriptor → Descriptor → Prop :=
  Relation.ReflTransGen t.Next

/-- Lookups end in a descriptor that is no pointer. -/
structure EndsIn (t : RefTable) (d u : Descriptor) : Prop where
  comesTo : t.ComesTo d u
  noPointer : u.pointer? = none

/-- Lookups come to a pointer that has no entry. -/
def Dangles (t : RefTable) (d : Descriptor) : Prop :=
  ∃ p, t.ComesTo d (.ref p) ∧ t.get? p = none

/-- Lookups come to a pointer from which they come to it again. -/
def Circles (t : RefTable) (d : Descriptor) : Prop :=
  ∃ p, t.ComesTo d (.ref p) ∧ Relation.TransGen t.Next (.ref p) (.ref p)

/-- What a pointer stands for, and nothing for other descriptors. -/
def next? (t : RefTable) (d : Descriptor) : Option Descriptor :=
  d.pointer?.bind t.get?

/-- A pointer is looked up by one step. -/
theorem next_eq (t : RefTable) : t.Next = Steps.Step t.next? := by
  funext d u
  refine propext ⟨?_, fun h => ?_⟩
  · rintro ⟨p, rfl, hg⟩
    exact hg
  · obtain ⟨p, hp, hg⟩ := Option.bind_eq_some_iff.1 h
    exact ⟨p, Descriptor.eq_ref_of_pointer? hp, hg⟩

/-! ## Chains -/

theorem length_keys (t : RefTable) : t.keys.length = t.size :=
  List.length_map _

namespace Chain

/-- A lookup leaves the rest of a chain. -/
theorem of_next (h : Chain t d ps u) (hn : t.Next d v) : ∃ p qs, ps = p :: qs ∧ Chain t v qs u := by
  obtain ⟨p, rfl, hv⟩ := hn
  cases h with
  | here hu => simp [Descriptor.pointer?] at hu
  | @step _ w _ qs hg hc =>
      obtain rfl := Option.some.inj (hg.symm.trans hv)
      exact ⟨p, qs, rfl, hc⟩

/-- Wherever lookups come to, the chain goes on to its end. -/
theorem of_comesTo (h : Chain t d ps u) (hc : t.ComesTo d v) : ∃ qs, Chain t v qs u := by
  induction hc with
  | refl => exact ⟨ps, h⟩
  | tail _ hn ih =>
      obtain ⟨qs, hq⟩ := ih
      obtain ⟨_, rs, -, hr⟩ := hq.of_next hn
      exact ⟨rs, hr⟩

/-- After at least one lookup the rest of the chain is shorter. -/
theorem of_transGen_next (h : Chain t d ps u) (hc : Relation.TransGen t.Next d v) :
    ∃ qs, Chain t v qs u ∧ qs.length < ps.length := by
  induction hc with
  | single hn =>
      obtain ⟨p, qs, rfl, hq⟩ := h.of_next hn
      exact ⟨qs, hq, Nat.lt_succ_self _⟩
  | tail _ hn ih =>
      obtain ⟨qs, hq, hlt⟩ := ih
      obtain ⟨p, rs, rfl, hr⟩ := hq.of_next hn
      exact ⟨rs, hr, Nat.lt_of_succ_lt hlt⟩

theorem not_dangles (h : Chain t d ps u) : ¬ t.Dangles d := by
  rintro ⟨p, hp, hg⟩
  obtain ⟨qs, hq⟩ := h.of_comesTo hp
  cases hq with
  | here hu => simp [Descriptor.pointer?] at hu
  | step hg' => simp [hg] at hg'

theorem not_circles (h : Chain t d ps u) : ¬ t.Circles d := by
  rintro ⟨p, hp, hc⟩
  obtain ⟨qs, hq⟩ := h.of_comesTo hp
  obtain ⟨rs, hr, hlt⟩ := hq.of_transGen_next hc
  rw [(hq.unique hr).1] at hlt
  exact Nat.lt_irrefl _ hlt

/-- A chain on which every pointer of the table lies is as long as the table. -/
theorem length_eq (h : Chain t d ps u) (hk : t.keys ⊆ ps) : ps.length = t.size := by
  refine Nat.le_antisymm h.length_le ?_
  rw [← length_keys]
  exact (List.subperm_of_subset t.nodup_keys hk).length_le

end Chain

/-- Chains are what lookups go through until they end. -/
theorem endsIn_iff : t.EndsIn d u ↔ ∃ ps, Chain t d ps u := by
  constructor
  · rintro ⟨hc, hu⟩
    induction hc using Relation.ReflTransGen.head_induction_on with
    | refl => exact ⟨[], .here hu⟩
    | head hn _ ih =>
        obtain ⟨p, rfl, hg⟩ := hn
        obtain ⟨ps, hp⟩ := ih
        exact ⟨p :: ps, .step hg hp⟩
  · rintro ⟨ps, h⟩
    refine ⟨?_, h.pointer?_end⟩
    induction h with
    | here => exact .refl
    | step hg _ ih => exact .head ⟨_, rfl, hg⟩ ih

/-- Lookups end, dangle or go in circles: those that can be followed by another are the lookups of
the pointers of the table. -/
theorem ends_or_dangles_or_circles (t : RefTable) (d : Descriptor) :
    (∃ u, t.EndsIn d u) ∨ t.Dangles d ∨ t.Circles d := by
  have hlisted : ∀ d u, t.next? d = some u → d ∈ t.keys.map Descriptor.ref := by
    intro d u h
    obtain ⟨p, hp, hg⟩ := Option.bind_eq_some_iff.1 h
    exact List.mem_map.2 ⟨p, mem_keys_of_get? hg, (Descriptor.eq_ref_of_pointer? hp).symm⟩
  rcases Steps.exists_way_or_circles hlisted d with
    ⟨passed, u, hway, hu, -⟩ | ⟨u, hreaches, hcircle⟩
  · have hcomes : t.ComesTo d u := by
      rw [ComesTo, next_eq]
      exact hway.reaches
    cases hp : u.pointer? with
    | none => exact Or.inl ⟨u, hcomes, hp⟩
    | some p =>
        obtain rfl := Descriptor.eq_ref_of_pointer? hp
        exact Or.inr (Or.inl ⟨p, hcomes, hu⟩)
  · rw [Steps.Reaches, ← next_eq] at hreaches
    rw [← next_eq] at hcircle
    obtain ⟨_, ⟨p, rfl, -⟩, -⟩ := Relation.TransGen.head'_iff.1 hcircle
    exact Or.inr (Or.inr ⟨p, hreaches, hcircle⟩)

/-- Where every pointer inside an entry has an entry, lookups come to entries only. -/
theorem not_dangles (ht : ∀ p u, t.get? p = some u → u.pointers ⊆ t.keys)
    (hd : d.pointers ⊆ t.keys) :
    ¬ t.Dangles d := by
  rintro ⟨p, hp, hg⟩
  have hall : ∀ v, t.ComesTo d v → v.pointers ⊆ t.keys := by
    intro v hv
    induction hv with
    | refl => exact hd
    | tail _ hn _ =>
        obtain ⟨q, -, hq⟩ := hn
        exact ht q _ hq
  obtain ⟨u, hu⟩ := exists_get?_of_mem_keys (hall _ hp (List.mem_singleton_self p))
  rw [hg] at hu
  cases hu

/-! ## Following pointers -/

/-- As many steps as a chain has pointers are needed to find its end. -/
theorem length_le_of_follow? (h : Chain t d ps u) (hf : t.follow? steps d = some v) :
    ps.length ≤ steps := by
  induction h generalizing steps with
  | here => exact Nat.zero_le _
  | @step q w _ qs hg _ ih =>
      cases steps with
      | zero => cases hf
      | succ steps =>
          have hrest : t.follow? steps w = some v := by simpa [follow?, hg] using hf
          exact Nat.succ_le_succ (ih hrest)

/-- A number of steps finds the ends of chains that are not longer. -/
theorem follow?_eq_some_iff : t.follow? steps d = some u ↔
    ∃ ps, Chain t d ps u ∧ ps.length ≤ steps := by
  constructor
  · intro hf
    obtain ⟨ps, hc⟩ := exists_chain_of_follow? hf
    exact ⟨ps, hc, length_le_of_follow? hc hf⟩
  · rintro ⟨ps, hc, hle⟩
    exact follow?_of_chain hc hle

/-- Nothing is found if and only if lookups come to a pointer without an entry or go in circles. -/
theorem resolve?_eq_none_iff : t.resolve? d = none ↔ t.Dangles d ∨ t.Circles d := by
  constructor
  · intro hnone
    rcases ends_or_dangles_or_circles t d with ⟨u, hu⟩ | h
    · rw [resolve?_eq_some_iff.2 (endsIn_iff.1 hu)] at hnone
      cases hnone
    · exact h
  · intro h
    rw [Option.eq_none_iff_forall_ne_some]
    intro u hu
    obtain ⟨ps, hc⟩ := resolve?_eq_some_iff.1 hu
    exact h.elim hc.not_dangles hc.not_circles

theorem resolve?_eq_some_iff_endsIn : t.resolve? d = some u ↔ t.EndsIn d u := by
  rw [endsIn_iff, resolve?_eq_some_iff]

theorem resolve?_eq_none_iff_not_endsIn : t.resolve? d = none ↔ ∀ u, ¬ t.EndsIn d u := by
  simp only [Option.eq_none_iff_forall_ne_some, ne_eq, resolve?_eq_some_iff_endsIn]

/-- Following pointers finds exactly the ends of lookups.  It finds nothing if and only if lookups
come to a pointer without an entry or go in circles.  A chain on which every pointer of the table
lies is followed to its end, for which no step can be spared. -/
theorem resolve?_exact (t : RefTable) (d : Descriptor) :
    (∀ u, t.resolve? d = some u ↔ t.EndsIn d u) ∧
      (t.resolve? d = none ↔ t.Dangles d ∨ t.Circles d) ∧
      ∀ ps u, Chain t d ps u → t.keys ⊆ ps →
        t.resolve? d = some u ∧ ∀ steps < t.size, t.follow? steps d = none := by
  refine ⟨fun u => resolve?_eq_some_iff_endsIn, resolve?_eq_none_iff,
    fun ps u hc hk => ⟨?_, fun steps hlt => ?_⟩⟩
  · exact resolve?_eq_some_iff.2 ⟨ps, hc⟩
  · rw [Option.eq_none_iff_forall_ne_some]
    intro v hv
    have hle := length_le_of_follow? hc hv
    rw [hc.length_eq hk] at hle
    exact absurd hlt (Nat.not_lt_of_le hle)

/-- Three pointers, each of which stands for the next one. -/
def aliases : RefTable :=
  ((RefTable.empty.insert "#/components/schemas/Third" (.primitive .boolean)).insert
    "#/components/schemas/First" (.ref "#/components/schemas/Second")).insert
    "#/components/schemas/Second" (.ref "#/components/schemas/Third")

theorem resolve?_exact_aliases :
    aliases.resolve? (.ref "#/components/schemas/First") = some (.primitive .boolean) ∧
      aliases.follow? 2 (.ref "#/components/schemas/First") = none ∧
      (aliases.resolve? (.ref "#/components/schemas/Fourth") = none ↔
        aliases.Dangles (.ref "#/components/schemas/Fourth") ∨
          aliases.Circles (.ref "#/components/schemas/Fourth")) := by
  have hchain : Chain aliases (.ref "#/components/schemas/First")
      ["#/components/schemas/First", "#/components/schemas/Second", "#/components/schemas/Third"]
      (.primitive .boolean) := .step rfl (.step rfl (.step rfl (.here rfl)))
  have hall : aliases.keys ⊆
      ["#/components/schemas/First", "#/components/schemas/Second",
        "#/components/schemas/Third"] := by
    decide
  obtain ⟨hend, hspare⟩ := (resolve?_exact aliases _).2.2 _ _ hchain hall
  exact ⟨hend, hspare 2 (by decide), (resolve?_exact aliases _).2.1⟩

end RefTable
end ApiContract
