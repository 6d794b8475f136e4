import ApiContract.RefTable
import Mathlib.Data.List.Chain
import Mathlib.Data.List.Nodup
import Mathlib.Logic.Relation

/-!
# The graph of a table

A table of named schemas is a directed graph: a pointer refers to every pointer inside its entry, at
any depth.

**Results:**

* what `insert` and `mark` do to entries and marks;
* `Grows`: a table that has grown keeps entries, their order and marks, and with them every edge and
  every path of the graph;
* `IsCycle`: closed walks as lists of pointers, and simple ones through a given pointer
  (`exists_simple_cycle`).
-/

namespace ApiContract

namespace Descriptor

@[simp] theorem pointers_primitive (p : Primitive) : (primitive p).pointers = [] := rfl

@[simp] theorem pointers_fileUpload : fileUpload.pointers = [] := rfl

@[simp] theorem pointers_file : file.pointers = [] := rfl

@[simp] theorem pointers_ref (p : String) : (ref p).pointers = [p] := rfl

@[simp] theorem pointers_array (name? : Option String) (e : Descriptor) :
    (array name? e).pointers = e.pointers := rfl

theorem filterMap_propertyParts (ps : List Property) :
    (propertyParts ps).filterMap pointer? = ps.flatMap fun p => p.type.pointers := by
  induction ps with
  | nil => rfl
  | cons p ps ih =>
      obtain ⟨name, t, format, required⟩ := p
      simp [propertyParts, ih, pointers]

/-- The pointers inside a record are those inside its properties. -/
@[simp] theorem pointers_object (name? : Option String) (ps : List Property) :
    (object name? ps).pointers = ps.flatMap fun p => p.type.pointers := by
  rw [← filterMap_propertyParts]
  rfl

end Descriptor

namespace RefTable

/-! ## Entries -/

theorem mem_entries_of_get? {t : RefTable} {p : String} {u : Descriptor} (h : t.get? p = some u) :
    (p, u) ∈ t.entries := by
  obtain ⟨before, after, he, -⟩ := List.lookup_eq_some_iff.1 h
  simp [he]

theorem contains_iff {t : RefTable} {p : String} : t.contains p = true ↔ p ∈ t.keys := by
  simp [contains]

theorem mem_keys_of_get? {t : RefTable} {p : String} {u : Descriptor} (h : t.get? p = some u) :
    p ∈ t.keys :=
  List.mem_map.2 ⟨(p, u), mem_entries_of_get? h, rfl⟩

/-- A pointer among the keys has an entry. -/
theorem exists_get?_of_mem_keys {t : RefTable} {p : String} (h : p ∈ t.keys) :
    ∃ u, t.get? p = some u := by
  cases hg : t.get? p with
  | some u => exact ⟨u, rfl⟩
  | none =>
      obtain ⟨⟨q, u⟩, he, rfl⟩ := List.mem_map.1 h
      have := List.lookup_eq_none_iff.1 hg (q, u) he
      simp at this

/-- Every entry is the one that its pointer is looked up to. -/
theorem get?_of_mem_entries {t : RefTable} {p : String} {u : Descriptor} (h : (p, u) ∈ t.entries) :
    t.get? p = some u := by
  obtain ⟨v, hv⟩ := exists_get?_of_mem_keys (List.mem_map.2 ⟨(p, u), h, rfl⟩ : p ∈ t.keys)
  have hinj := List.inj_on_of_nodup_map t.nodup_keys h (mem_entries_of_get? hv) rfl
  rw [hv, (Prod.mk.inj hinj).2]

theorem entries_insert {t : RefTable} {p : String} (h : p ∉ t.keys) (u : Descriptor) :
    (t.insert p u).entries = t.entries ++ [(p, u)] := by
  have hc : ¬ t.contains p = true := fun hc => h (contains_iff.1 hc)
  simp [insert, hc]

@[simp] theorem isRecursive_insert (t : RefTable) (p q : String) (u : Descriptor) :
    (t.insert p u).isRecursive q = t.isRecursive q := by
  unfold insert
  split <;> rfl

@[simp] theorem entries_mark (t : RefTable) (p : String) : (t.mark p).entries = t.entries := by
  unfold mark
  split <;> rfl

@[simp] theorem keys_mark (t : RefTable) (p : String) : (t.mark p).keys = t.keys := by
  simp [keys]

@[simp] theorem get?_mark (t : RefTable) (p q : String) : (t.mark p).get? q = t.get? q := by
  simp [get?]

theorem isRecursive_mark {t : RefTable} {p q : String} :
    (t.mark p).isRecursive q = true ↔ q = p ∨ t.isRecursive q = true := by
  unfold mark
  split
  · rename_i h
    constructor
    · exact Or.inr
    · rintro (rfl | hq)
      · exact h
      · exact hq
  · simp [isRecursive]

/-! ## The graph -/

/-- A pointer refers to those inside its entry. -/
def Refers (t : RefTable) (p q : String) : Prop :=
  ∃ u, t.get? p = some u ∧ q ∈ u.pointers

/-- There is a path between two pointers. -/
abbrev Leads (t : RefTable) : String → String → Prop :=
  Relation.ReflTransGen t.Refers

/-- One pointer was inserted before another. -/
def Before (t : RefTable) (q p : String) : Prop :=
  q ∈ t.keys ∧ t.keys.idxOf q < t.keys.idxOf p

/-! ## Growth -/

/-- A table that comes from another by inserting and marking. -/
structure Grows (t t' : RefTable) : Prop where
  /-- Entries stay where they are. -/
  entries : t.entries <+: t'.entries
  /-- Marks stay. -/
  marks : ∀ q, t.isRecursive q = true → t'.isRecursive q = true

namespace Grows

variable {t t' t'' : RefTable}

theorem refl (t : RefTable) : Grows t t :=
  ⟨List.prefix_refl _, fun _ h => h⟩

theorem trans (h : Grows t t') (h' : Grows t' t'') : Grows t t'' :=
  ⟨h.entries.trans h'.entries, fun q hq => h'.marks q (h.marks q hq)⟩

theorem insert {p : String} (h : p ∉ t.keys) (u : Descriptor) : Grows t (t.insert p u) :=
  ⟨by simp [entries_insert h], fun q hq => by simpa using hq⟩

theorem mark (t : RefTable) (p : String) : Grows t (t.mark p) :=
  ⟨by simp, fun _ hq => isRecursive_mark.2 (Or.inr hq)⟩

theorem keys (h : Grows t t') : t.keys <+: t'.keys := by
  obtain ⟨more, hm⟩ := h.entries
  exact ⟨more.map Prod.fst, by simp [RefTable.keys, ← hm]⟩

theorem mem_keys (h : Grows t t') {p : String} (hp : p ∈ t.keys) : p ∈ t'.keys :=
  h.keys.subset hp

theorem get? (h : Grows t t') {p : String} {u : Descriptor} (hp : t.get? p = some u) :
    t'.get? p = some u := by
  obtain ⟨more, hm⟩ := h.entries
  unfold RefTable.get? at hp ⊢
  rw [← hm, List.lookup_append, hp, Option.some_or]

theorem refers (h : Grows t t') {p q : String} (hr : t.Refers p q) : t'.Refers p q := by
  obtain ⟨u, hu, hq⟩ := hr
  exact ⟨u, h.get? hu, hq⟩

theorem leads (h : Grows t t') {p q : String} (hl : t.Leads p q) : t'.Leads p q :=
  Relation.ReflTransGen.mono (fun _ _ => h.refers) _ _ hl

theorem onCycle (h : Grows t t') {p q : String} (hl : Relation.TransGen t.Refers p q) :
    Relation.TransGen t'.Refers p q :=
  Relation.TransGen.mono (fun _ _ => h.refers) _ _ hl

/-- The order of insertion stays. -/
theorem before (h : Grows t t') {p q : String} (hb : t.Before q p) (hp : p ∈ t.keys) :
    t'.Before q p := by
  obtain ⟨hq, hlt⟩ := hb
  obtain ⟨more, hm⟩ := h.keys
  refine ⟨h.mem_keys hq, ?_⟩
  rw [← hm, List.idxOf_append_of_mem hq, List.idxOf_append_of_mem hp]
  exact hlt

end Grows

theorem keys_insert {t : RefTable} {p : String} (h : p ∉ t.keys) (u : Descriptor) :
    (t.insert p u).keys = t.keys ++ [p] := by
  simp [keys, entries_insert h]

theorem get?_insert_self {t : RefTable} {p : String} (h : p ∉ t.keys) (u : Descriptor) :
    (t.insert p u).get? p = some u :=
  get?_of_mem_entries (by simp [entries_insert h])

/-- An entry of a table after an insertion is the new one or an old one. -/
theorem get?_insert_cases {t : RefTable} {p q : String} {u v : Descriptor} (h : p ∉ t.keys)
    (hq : (t.insert p u).get? q = some v) : q = p ∧ v = u ∨ t.get? q = some v := by
  have hm := mem_entries_of_get? hq
  rw [entries_insert h, List.mem_append, List.mem_singleton] at hm
  rcases hm with hm | hm
  · exact Or.inr (get?_of_mem_entries hm)
  · exact Or.inl ⟨(Prod.mk.inj hm).1, (Prod.mk.inj hm).2⟩

/-- What is in the table comes before what is inserted now. -/
theorem before_insert {t : RefTable} {p q : String} (h : p ∉ t.keys) (u : Descriptor)
    (hq : q ∈ t.keys) : (t.insert p u).Before q p := by
  refine ⟨(Grows.insert h u).mem_keys hq, ?_⟩
  rw [keys_insert h, List.idxOf_append_of_mem hq, List.idxOf_append_of_notMem h]
  have := List.idxOf_lt_length_of_mem hq
  omega

/-! ## Cycles -/

section Walks

variable {r : String → String → Prop} {p q : String}

/-- A path is a walk that names every stop between its ends. -/
theorem exists_walk (h : Relation.TransGen r p q) :
    ∃ stops, List.IsChain r (p :: (stops ++ [q])) := by
  induction h with
  | single h => exact ⟨[], by simpa using h⟩
  | @tail b c _ hbc ih =>
      obtain ⟨stops, hs⟩ := ih
      refine ⟨stops ++ [b], ?_⟩
      have hstep : List.IsChain r (b :: [c]) := by simpa using hbc
      rw [← List.cons_append] at hs
      simpa using List.isChain_split.2 ⟨hs, hstep⟩

/-- A walk of at least one step is a path. -/
theorem transGen_of_walk {stops : List String} (h : List.IsChain r (p :: (stops ++ [q]))) :
    Relation.TransGen r p q := by
  induction stops generalizing p with
  | nil => exact .single (by simpa using h)
  | cons s stops ih =>
      rw [List.cons_append, List.isChain_cons_cons] at h
      exact .head h.1 (ih h.2)

/-- Along a path on which a rank decreases, the end ranks lower than the start. -/
theorem lt_of_transGen {f : String → Nat} (h : Relation.TransGen (fun a b => f b < f a) p q) :
    f q < f p := by
  induction h with
  | single h => exact h
  | tail _ hbc ih => exact Nat.lt_trans hbc ih

/-- A list that repeats an element can be cut at two places where it occurs. -/
theorem exists_repetition {xs : List String} (h : ¬ xs.Nodup) :
    ∃ x before between after, xs = before ++ x :: (between ++ x :: after) := by
  induction xs with
  | nil => simp at h
  | cons y ys ih =>
      by_cases hy : y ∈ ys
      · obtain ⟨between, after, rfl⟩ := List.append_of_mem hy
        exact ⟨y, [], between, after, rfl⟩
      · have hys : ¬ ys.Nodup := fun hn => h (List.nodup_cons.2 ⟨hy, hn⟩)
        obtain ⟨x, before, between, after, rfl⟩ := ih hys
        exact ⟨x, y :: before, between, after, rfl⟩

/-- A closed walk that repeats a stop can be made shorter. -/
theorem exists_shorter_walk {stops : List String} (h : List.IsChain r (p :: (stops ++ [p])))
    (hn : ¬ (p :: stops).Nodup) :
    ∃ fewer, List.IsChain r (p :: (fewer ++ [p])) ∧ fewer.length < stops.length := by
  obtain ⟨x, before, between, after, he⟩ := exists_repetition hn
  rw [← List.cons_append, he] at h
  simp only [List.append_assoc, List.cons_append] at h
  obtain ⟨hbefore, hrest⟩ := List.isChain_split.1 h
  rw [← List.cons_append] at hrest
  have hafter := (List.isChain_split.1 hrest).2
  cases before with
  | nil =>
      obtain ⟨rfl, rfl⟩ := List.cons.inj he
      have hlt : after.length < (between ++ p :: after).length := by
        simp only [List.length_append, List.length_cons]
        omega
      exact ⟨after, hafter, hlt⟩
  | cons b before =>
      obtain ⟨rfl, rfl⟩ := List.cons.inj he
      have hlt : (before ++ x :: after).length <
          (before ++ x :: (between ++ x :: after)).length := by
        simp only [List.length_append, List.length_cons]
        omega
      refine ⟨before ++ x :: after, ?_, hlt⟩
      have hj := List.isChain_split.2 ⟨hbefore, hafter⟩
      simpa using hj

/-- A path back to its start is a closed walk without repetitions. -/
theorem exists_simple_walk (h : Relation.TransGen r p p) :
    ∃ stops, List.IsChain r (p :: (stops ++ [p])) ∧ (p :: stops).Nodup := by
  obtain ⟨stops, hs⟩ := exists_walk h
  -- The number of stops decreases until none is repeated.
  induction hl : stops.length using Nat.strong_induction_on generalizing stops with
  | _ n ih =>
      by_cases hn : (p :: stops).Nodup
      · exact ⟨stops, hs, hn⟩
      · obtain ⟨fewer, hf, hlt⟩ := exists_shorter_walk hs hn
        exact ih fewer.length (hl ▸ hlt) fewer hf rfl

end Walks

/-- A closed walk: every pointer refers to the next one, the last one to the first. -/
def IsCycle (t : RefTable) : List String → Prop
  | [] => False
  | p :: rest => List.IsChain t.Refers (p :: (rest ++ [p]))

/-- A path back to its start is a cycle without repetitions. -/
theorem exists_simple_cycle {t : RefTable} {p : String} (h : Relation.TransGen t.Refers p p) :
    ∃ rest, t.IsCycle (p :: rest) ∧ (p :: rest).Nodup :=
  exists_simple_walk h

end RefTable
end ApiContract
