import ApiContract.Assoc
import Mathlib.Data.List.Induction
import Mathlib.Data.List.Nodup

/-!
# The latest of several values

**Input:** pairs of a key and a value, in the order in which they were given, where a key may occur
more than once.

The latest value of a key is what a map holds after all pairs have been put into it, and what a name
stands for after all of them have been declared.

**Results:**

* `latest?_append`: a later value hides an earlier one;
* `forall_latest?_iff_nodup`: all values are the latest of their keys if and only if no key was
  repeated;
* `get?_putAll`: a map holds the latest value of every key;
* `keys_putAll`: its keys stand in the order in which they were first given;
* `putAll_eq_iff`: it holds all pairs in their order if and only if no key was repeated.
-/

namespace ApiContract
namespace Assoc

variable {κ α β : Type} [BEq κ] [LawfulBEq κ] {k : κ} {v : α} {a b : Assoc κ α}

/-- The last value given for a key. -/
def latest? (a : Assoc κ α) (k : κ) : Option α :=
  a.reverse.lookup k

omit [LawfulBEq κ] in
theorem latest?_append (a b : Assoc κ α) (k : κ) :
    latest? (a ++ b) k = (latest? b k).or (latest? a k) := by
  simp [latest?, List.lookup_append]

theorem lookup_eq_none_iff_not_mem : a.lookup k = none ↔ k ∉ a.map Prod.fst := by
  rw [List.lookup_eq_none_iff]
  constructor
  · intro h hk
    obtain ⟨e, he, rfl⟩ := List.mem_map.1 hk
    have hne := h e he
    simp at hne
  · intro h e he
    have hne : k ≠ e.1 := fun hk => h (hk ▸ List.mem_map_of_mem he)
    simpa using hne

theorem lookup_eq_some_of_unique (h : (k, v) ∈ a) (hu : ∀ w, (k, w) ∈ a → w = v) :
    a.lookup k = some v := by
  induction a with
  | nil => cases h
  | cons e rest ih =>
      obtain ⟨j, w⟩ := e
      by_cases hk : k = j
      · subst hk
        rw [hu w List.mem_cons_self]
        simp
      · have hb : (k == j) = false := by simpa using hk
        have hrest : (k, v) ∈ rest := by
          rcases List.mem_cons.1 h with he | hr
          · exact absurd (Prod.mk.inj he).1 hk
          · exact hr
        rw [List.lookup_cons, hb]
        exact ih hrest fun w hw => hu w (List.mem_cons_of_mem _ hw)

theorem latest?_eq_none_iff : latest? a k = none ↔ k ∉ a.map Prod.fst := by
  rw [latest?, lookup_eq_none_iff_not_mem]
  simp

theorem latest?_eq_some_of_unique (h : (k, v) ∈ a) (hu : ∀ w, (k, w) ∈ a → w = v) :
    latest? a k = some v :=
  lookup_eq_some_of_unique (List.mem_reverse.2 h) fun w hw => hu w (List.mem_reverse.1 hw)

theorem mem_of_latest? (h : latest? a k = some v) : (k, v) ∈ a := by
  obtain ⟨before, after, hsplit, -⟩ := List.lookup_eq_some_iff.1 h
  rw [← List.mem_reverse, hsplit]
  simp

theorem latest?_append_of_not_mem (h : k ∉ b.map Prod.fst) :
    latest? (a ++ b) k = latest? a k := by
  rw [latest?_append, latest?_eq_none_iff.2 h, Option.none_or]

theorem latest?_append_of_mem (h : k ∈ b.map Prod.fst) : latest? (a ++ b) k = latest? b k := by
  cases hb : latest? b k with
  | none => exact absurd h (latest?_eq_none_iff.1 hb)
  | some w => rw [latest?_append, hb, Option.some_or]

omit [LawfulBEq κ] in
theorem latest?_map (f : α → β) (a : Assoc κ α) (k : κ) :
    latest? (a.map fun e => (e.1, f e.2)) k = (latest? a k).map f := by
  rw [latest?, latest?, ← List.map_reverse]
  induction a.reverse with
  | nil => rfl
  | cons e rest ih =>
      rw [List.map_cons, List.lookup_cons, List.lookup_cons, ih]
      split <;> rfl

/-- Of different pairs, given after others, all values are the latest of their keys if and only if
no key is repeated. -/
theorem forall_latest?_iff_nodup (hb : b.Nodup) :
    (∀ e ∈ b, latest? (a ++ b) e.1 = some e.2) ↔ (b.map Prod.fst).Nodup := by
  have hlater : ∀ e ∈ b, latest? (a ++ b) e.1 = latest? b e.1 :=
    fun e he => latest?_append_of_mem (List.mem_map_of_mem he)
  constructor
  · intro h
    refine hb.map_on fun e he e' he' hk => ?_
    have hv : some e.2 = some e'.2 := by rw [← h e he, ← h e' he', hk]
    exact Prod.ext hk (Option.some.inj hv)
  · intro hn e he
    rw [hlater e he]
    refine latest?_eq_some_of_unique he fun w hw => ?_
    rw [← List.inj_on_of_nodup_map hn hw he rfl]

/-! ## Maps -/

/-- Puts pairs into a map, one after another. -/
def putAll (a : Assoc κ α) (es : List (κ × α)) : Assoc κ α :=
  es.foldl (fun done e => put e.1 e.2 done) a

theorem get?_putAll (a : Assoc κ α) (es : List (κ × α)) (k : κ) :
    (putAll a es).get? k = (latest? es k).or (a.get? k) := by
  induction es generalizing a with
  | nil => rfl
  | cons e es ih =>
      obtain ⟨j, w⟩ := e
      have hstep : putAll a ((j, w) :: es) = putAll (put j w a) es := rfl
      have hsplit : latest? ((j, w) :: es) k = (latest? es k).or (latest? [(j, w)] k) :=
        latest?_append [(j, w)] es k
      rw [hstep, ih, hsplit, Option.or_assoc]
      congr 1
      by_cases hk : k = j
      · subst hk
        simp [get?_put_self, latest?]
      · have hb : (k == j) = false := by simpa using hk
        rw [get?_put_of_ne hk]
        simp [latest?, hb, List.lookup_cons]

omit [LawfulBEq κ] in
theorem mem_put {e : κ × α} (h : e ∈ put k v a) : e ∈ a ∨ e.2 = v := by
  induction a with
  | nil => exact Or.inr (by rw [List.mem_singleton.1 h])
  | cons f rest ih =>
      rw [put] at h
      split at h
      · rcases List.mem_cons.1 h with rfl | h
        · exact Or.inr rfl
        · exact Or.inl (List.mem_cons_of_mem f h)
      · rcases List.mem_cons.1 h with rfl | h
        · exact Or.inl List.mem_cons_self
        · rcases ih h with h | h
          · exact Or.inl (List.mem_cons_of_mem f h)
          · exact Or.inr h

theorem mem_or_eq_of_mem_put {e : κ × α} (h : e ∈ put k v a) : e ∈ a ∨ e = (k, v) := by
  induction a with
  | nil => exact Or.inr (List.mem_singleton.1 h)
  | cons f rest ih =>
      rw [put] at h
      split at h
      · rename_i hkey
        rcases List.mem_cons.1 h with rfl | h
        · exact Or.inr (by rw [eq_of_beq hkey])
        · exact Or.inl (List.mem_cons_of_mem f h)
      · rcases List.mem_cons.1 h with rfl | h
        · exact Or.inl List.mem_cons_self
        · exact (ih h).imp_left (List.mem_cons_of_mem f)

omit [LawfulBEq κ] in
/-- A key that is in a map stays where it is, and any other is added at the end. -/
theorem keys_put (k : κ) (v : α) (a : Assoc κ α) :
    (put k v a).map Prod.fst = if a.any (·.1 == k) then a.map Prod.fst
      else a.map Prod.fst ++ [k] := by
  induction a with
  | nil => rfl
  | cons e rest ih =>
      obtain ⟨j, w⟩ := e
      by_cases hj : (j == k) = true
      · simp [put, hj]
      · simp only [put, hj, Bool.false_eq_true, if_false, List.map_cons, ih, List.any_cons,
          Bool.false_or]
        split <;> rfl

theorem nodup_keys_put (h : (a.map Prod.fst).Nodup) : ((put k v a).map Prod.fst).Nodup := by
  rw [keys_put]
  split
  · exact h
  · rename_i hk
    have hk' : k ∉ a.map Prod.fst := by
      intro hm
      obtain ⟨e, he, rfl⟩ := List.mem_map.1 hm
      exact hk (List.any_eq_true.2 ⟨e, he, beq_self_eq_true e.1⟩)
    rw [List.nodup_append]
    refine ⟨h, by simp, ?_⟩
    intro x hx y hy hxy
    obtain rfl := List.mem_singleton.1 hy
    exact hk' (hxy ▸ hx)

omit [LawfulBEq κ] in
theorem put_eq_append (h : ∀ e ∈ a, (e.1 == k) = false) : put k v a = a ++ [(k, v)] := by
  induction a with
  | nil => rfl
  | cons e rest ih =>
      obtain ⟨j, w⟩ := e
      have hj : (j == k) = false := h (j, w) List.mem_cons_self
      rw [put, hj, ih fun e he => h e (List.mem_cons_of_mem _ he)]
      rfl

omit [LawfulBEq κ] in
theorem mem_putAll {es : List (κ × α)} {e : κ × α} (h : e ∈ putAll a es) :
    e ∈ a ∨ ∃ f ∈ es, e.2 = f.2 := by
  induction es generalizing a with
  | nil => exact Or.inl h
  | cons f es ih =>
      rcases ih h with h | ⟨g, hg, he⟩
      · rcases mem_put h with h | he
        · exact Or.inl h
        · exact Or.inr ⟨f, List.mem_cons_self, he⟩
      · exact Or.inr ⟨g, List.mem_cons_of_mem f hg, he⟩

theorem nodup_keys_putAll {es : List (κ × α)} (h : (a.map Prod.fst).Nodup) :
    ((putAll a es).map Prod.fst).Nodup := by
  induction es generalizing a with
  | nil => exact h
  | cons e es ih => exact ih (nodup_keys_put h)

/-- The keys of a map stand in the order in which they were first given. -/
theorem keys_putAll (es : List (κ × α)) :
    (putAll [] es).map Prod.fst = (es.map Prod.fst).eraseDups := by
  induction es using List.reverseRecOn with
  | nil => rfl
  | append_singleton es e ih =>
      obtain ⟨k, v⟩ := e
      have hstep : putAll [] (es ++ [(k, v)]) = put k v (putAll [] es) := List.foldl_append
      have hknown : (putAll [] es).any (·.1 == k) = true ↔ k ∈ es.map Prod.fst := by
        rw [← List.mem_eraseDups, ← ih]
        simp
      rw [hstep, keys_put, ih, List.map_append, List.eraseDups_append]
      by_cases hk : k ∈ es.map Prod.fst
      · have hrest : [k].removeAll (es.map Prod.fst) = [] := by simpa [List.removeAll] using hk
        rw [if_pos (hknown.2 hk), List.map_singleton, hrest]
        simp
      · have hrest : [k].removeAll (es.map Prod.fst) = [k] := by simpa [List.removeAll] using hk
        rw [if_neg (mt hknown.1 hk), List.map_singleton, hrest]
        rfl

theorem nodup_eraseDups (ks : List κ) : ks.eraseDups.Nodup := by
  have hkeys : ((putAll [] (ks.map fun k => (k, ()))).map Prod.fst).Nodup :=
    nodup_keys_putAll List.nodup_nil
  rw [keys_putAll, List.map_map] at hkeys
  simpa [Function.comp_def] using hkeys

theorem latest?_of_mem_putAll {es : List (κ × α)} {e : κ × α} (h : e ∈ putAll [] es) :
    latest? es e.1 = some e.2 := by
  have hkeys : ((putAll [] es).map Prod.fst).Nodup := nodup_keys_putAll List.nodup_nil
  have hvalue : (putAll [] es).get? e.1 = some e.2 :=
    lookup_eq_some_of_unique h fun w hw => by rw [← List.inj_on_of_nodup_map hkeys hw h rfl]
  rw [get?_putAll] at hvalue
  exact Option.or_none.symm.trans hvalue

theorem putAll_eq_append {es : List (κ × α)} (h : ((a ++ es).map Prod.fst).Nodup) :
    putAll a es = a ++ es := by
  induction es generalizing a with
  | nil => rw [List.append_nil]; rfl
  | cons e es ih =>
      obtain ⟨j, w⟩ := e
      have hnew : ∀ e ∈ a, (e.1 == j) = false := by
        intro e he
        rw [List.map_append, List.map_cons, List.nodup_append] at h
        have hne : e.1 ≠ j := h.2.2 e.1 (List.mem_map_of_mem he) j List.mem_cons_self
        simpa using hne
      have hstep : putAll a ((j, w) :: es) = putAll (put j w a) es := rfl
      rw [hstep, put_eq_append hnew, ih (by simpa using h)]
      simp

/-- A map holds all pairs in their order if and only if no key was repeated. -/
theorem putAll_eq_iff {es : List (κ × α)} : putAll [] es = es ↔ (es.map Prod.fst).Nodup := by
  constructor
  · intro h
    rw [← h]
    exact nodup_keys_putAll List.nodup_nil
  · intro h
    exact putAll_eq_append h

omit [LawfulBEq κ] in
/-- A value that no other value agrees with, as far as `f` tells, keeps the values of a map
apart. -/
theorem nodup_values_put {f : α → β} (h : (a.map fun e => f e.2).Nodup)
    (hv : ∀ e ∈ a, f e.2 ≠ f v) : ((put k v a).map fun e => f e.2).Nodup := by
  induction a with
  | nil => simp [put]
  | cons e rest ih =>
      obtain ⟨j, w⟩ := e
      rw [List.map_cons, List.nodup_cons] at h
      have hrest : ∀ e ∈ rest, f e.2 ≠ f v := fun e he => hv e (List.mem_cons_of_mem _ he)
      rw [put]
      split
      · rw [List.map_cons, List.nodup_cons]
        refine ⟨fun hm => ?_, h.2⟩
        obtain ⟨e, he, hfe⟩ := List.mem_map.1 hm
        exact hrest e he hfe
      · rw [List.map_cons, List.nodup_cons]
        refine ⟨fun hm => ?_, ih h.2 hrest⟩
        obtain ⟨e, he, hfe⟩ := List.mem_map.1 hm
        rcases mem_put he with he | he
        · exact h.1 (List.mem_map.2 ⟨e, he, hfe⟩)
        · rw [he] at hfe
          exact hv (j, w) List.mem_cons_self hfe.symm

end Assoc
end ApiContract
