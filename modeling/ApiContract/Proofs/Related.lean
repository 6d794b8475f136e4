import Mathlib.Data.List.Forall2

/-!
# Lists with related elements

**Input:** two lists of the same length whose elements are related, each to the one in its place, or
one list of which some elements have a property.

**Results:**

* `exists_of_mem_right`, `exists_mem_zip`: every element of one list is related to one of the other,
  the one in its place;
* `map_eq_map_iff`, `map_eq_flatMap`: elements with equal images give equal lists of images;
* `forall₂_toList`, `exists_of_rel_some`, `exists_of_rel_some_right`: values that are absent
  together, or related;
* `forall₂_of_common`: two lists whose elements are related to those of a third are related;
* `find?_eq_some_of_unique`, `filter_eq_toList_find?`: what is found if only one element has a
  property.
-/

namespace ApiContract

section Related

variable {α β γ δ : Type} {R : α → β → Prop} {as : List α} {bs : List β} {cs : List γ}

theorem exists_mem_zip (h : List.Forall₂ R as bs) {b : β} (hb : b ∈ bs) :
    ∃ a, (a, b) ∈ as.zip bs ∧ R a b := by
  induction h with
  | nil => cases hb
  | cons hr _ ih =>
      rw [List.zip_cons_cons]
      rcases List.mem_cons.1 hb with rfl | hb
      · exact ⟨_, List.mem_cons_self, hr⟩
      · obtain ⟨a, ha, hr⟩ := ih hb
        exact ⟨a, List.mem_cons_of_mem _ ha, hr⟩

theorem exists_of_mem_right (h : List.Forall₂ R as bs) {b : β} (hb : b ∈ bs) : ∃ a ∈ as, R a b := by
  obtain ⟨a, ha, hr⟩ := exists_mem_zip h hb
  exact ⟨a, (List.of_mem_zip ha).1, hr⟩

theorem forall₂_imp_mem {S : α → β → Prop} (h : List.Forall₂ R as bs)
    (hS : ∀ a b, a ∈ as → b ∈ bs → R a b → S a b) : List.Forall₂ S as bs := by
  induction h with
  | nil => exact .nil
  | cons hr _ ih =>
      refine .cons (hS _ _ List.mem_cons_self List.mem_cons_self hr) (ih fun a b ha hb => ?_)
      exact hS a b (List.mem_cons_of_mem _ ha) (List.mem_cons_of_mem _ hb)

theorem map_eq_map_iff {f : α → δ} {g : β → δ} :
    as.map f = bs.map g ↔ List.Forall₂ (fun a b => f a = g b) as bs := by
  rw [← List.forall₂_eq_eq_eq, List.forall₂_map_left_iff, List.forall₂_map_right_iff]

theorem map_eq_flatMap {f : α → List γ} {g : β → γ}
    (h : List.Forall₂ (fun a b => f a = [g b]) as bs) : bs.map g = as.flatMap f := by
  induction h with
  | nil => rfl
  | cons hab _ ih => rw [List.map_cons, List.flatMap_cons, hab, ih, List.singleton_append]

theorem forall₂_toList {a : Option α} {b : Option β} (h : Option.Rel R a b) :
    List.Forall₂ R a.toList b.toList := by
  cases h with
  | some hr => exact .cons hr .nil
  | none => exact .nil

theorem exists_of_rel_some {a : α} {b? : Option β} (h : Option.Rel R (some a) b?) :
    ∃ b, R a b ∧ b? = some b := by
  cases h with
  | some hr => exact ⟨_, hr, rfl⟩

theorem exists_of_rel_some_right {a? : Option α} {b : β} (h : Option.Rel R a? (some b)) :
    ∃ a, a? = some a ∧ R a b := by
  cases h with
  | some hr => exact ⟨_, rfl, hr⟩

theorem find?_eq_some_of_unique {p : α → Bool} {a : α} (ha : a ∈ as) (hp : p a = true)
    (hu : ∀ b ∈ as, p b = true → b = a) : as.find? p = some a := by
  cases hf : as.find? p with
  | none => exact absurd hp (List.find?_eq_none.1 hf a ha)
  | some b => rw [hu b (List.mem_of_find?_eq_some hf) (List.find?_some hf)]

/-- Where at most one element has a property, the first with it is the only one. -/
theorem filter_eq_toList_find? {p : α → Bool} (hn : as.Nodup)
    (hu : ∀ a ∈ as, ∀ b ∈ as, p a = true → p b = true → a = b) :
    as.filter p = (as.find? p).toList := by
  rw [← List.head?_filter]
  cases hf : as.filter p with
  | nil => rfl
  | cons a rest =>
      have hmem : ∀ b ∈ a :: rest, b ∈ as ∧ p b = true := by
        intro b hb
        rw [← hf] at hb
        exact List.mem_filter.1 hb
      have hnodup : (a :: rest).Nodup := by
        rw [← hf]
        exact hn.filter p
      have hrest : rest = [] := by
        refine List.eq_nil_iff_forall_not_mem.2 fun b hb => ?_
        have ha := hmem a List.mem_cons_self
        have hb' := hmem b (List.mem_cons_of_mem a hb)
        have hab := hu a ha.1 b hb'.1 ha.2 hb'.2
        exact (List.nodup_cons.1 hnodup).1 (hab ▸ hb)
      rw [hrest]
      rfl

theorem flatMap_eq_flatMap_filter {f g : α → List β} {p : α → Bool}
    (h : ∀ a, f a = if p a then g a else []) : as.flatMap f = (as.filter p).flatMap g := by
  induction as with
  | nil => rfl
  | cons a as ih =>
      rw [List.flatMap_cons, List.filter_cons, ih, h a]
      split
      · rw [List.flatMap_cons]
      · rfl

theorem infix_flatMap {f : α → List β} {a : α} (ha : a ∈ as) : f a <:+: as.flatMap f := by
  obtain ⟨before, after, rfl⟩ := List.append_of_mem ha
  rw [List.flatMap_append, List.flatMap_cons]
  exact ⟨before.flatMap f, after.flatMap f, List.append_assoc _ _ _⟩

/-- Lists whose elements are related to those of a common list are related. -/
theorem forall₂_of_common {S : α → γ → Prop} {T : β → γ → Prop} (h : List.Forall₂ R as bs)
    (h' : List.Forall₂ S as cs) (hT : ∀ a b c, R a b → S a c → T b c) : List.Forall₂ T bs cs := by
  induction h generalizing cs with
  | nil =>
      cases h'
      exact .nil
  | cons hr _ ih =>
      cases h' with
      | cons hs hrest => exact .cons (hT _ _ _ hr hs) (ih hrest)

end Related

end ApiContract
