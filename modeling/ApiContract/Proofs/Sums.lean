import ApiContract.Proofs.LegalNames

/-!
# Sums in resolved metadata

**Input:** the descriptors that code is generated from.

The only sums in resolved metadata are those of its responses and request bodies, and no sum is
inside another.  So descriptors that are alike are the same, unless they are sums, which have the
same variants in some order.

**Results:**

* `eq_of_alike`: what is like a descriptor without sums is this descriptor;
* `exists_perm_of_alike`, `exists_perm_of_alike_part`: what is like a sum has its variants in some
  order;
* `exists_sum_of_operation`: the sums of an operation have different variants without sums in them;
* `sum_or_sumFree`, `exists_operation_of_sum`: every sum in resolved metadata is one of an
  operation, and nothing else has a sum in it;
* `eq_of_alike_part`: what is like any other part of the metadata is this part.
-/

namespace ApiContract

/-! ## Descriptors without sums -/

namespace Descriptor

/-- Nothing inside a descriptor is a sum. -/
def SumFree (t : Descriptor) : Prop :=
  ∀ u ∈ t.parts, ∀ name vs, u ≠ .oneOf name vs

section SumFree

variable {name : String} {name? : Option String} {ps : List Property}
  {vs : List (String × List Descriptor)}

theorem propertyParts_eq (ps : List Property) :
    propertyParts ps = ps.flatMap fun p => p.type.parts := by
  induction ps with
  | nil => rfl
  | cons p ps ih => rw [propertyParts, ih, List.flatMap_cons]

theorem memberParts_eq (ts : List Descriptor) : memberParts ts = ts.flatMap parts := by
  induction ts with
  | nil => rfl
  | cons t ts ih => rw [memberParts, ih, List.flatMap_cons]

theorem variantParts_eq (vs : List (String × List Descriptor)) :
    variantParts vs = vs.flatMap fun v => v.2.flatMap parts := by
  induction vs with
  | nil => rfl
  | cons v vs ih => rw [variantParts, ih, memberParts_eq, List.flatMap_cons]

theorem sumFree_primitive (q : Primitive) : (primitive q).SumFree := by
  simp [SumFree, parts]

theorem sumFree_ref (pointer : String) : (ref pointer).SumFree := by
  simp [SumFree, parts]

theorem sumFree_file : file.SumFree := by
  simp [SumFree, parts]

theorem sumFree_fileUpload : fileUpload.SumFree := by
  simp [SumFree, parts]

theorem sumFree_array {e : Descriptor} (he : e.SumFree) : (array name? e).SumFree := by
  intro u hu
  rw [parts] at hu
  rcases List.mem_cons.1 hu with rfl | hu
  · simp
  · exact he u hu

theorem sumFree_object (hps : ∀ p ∈ ps, p.type.SumFree) : (object name? ps).SumFree := by
  intro u hu
  rw [parts, propertyParts_eq] at hu
  rcases List.mem_cons.1 hu with rfl | hu
  · simp
  · obtain ⟨p, hp, hu⟩ := List.mem_flatMap.1 hu
    exact hps p hp u hu

theorem SumFree.of_mem_parts {t u : Descriptor} (h : t.SumFree) (hu : u ∈ t.parts) : u.SumFree :=
  fun v hv => h v (parts_subset t hu hv)

theorem SumFree.element {e : Descriptor} (h : (array name? e).SumFree) : e.SumFree :=
  h.of_mem_parts (mem_parts_array e.mem_parts_self)

theorem SumFree.property {p : Property} (h : (object name? ps).SumFree) (hp : p ∈ ps) :
    p.type.SumFree := by
  refine h.of_mem_parts ?_
  rw [parts]
  exact List.mem_cons_of_mem _ (mem_propertyParts hp)

theorem not_sumFree_oneOf : ¬ (oneOf name vs).SumFree :=
  fun h => h _ (mem_parts_self _) name vs rfl

end SumFree

/-! ### Likeness -/

section Likeness

mutual

theorem alike_self : (t : Descriptor) → t.alike t = true
  | .primitive _ => by simp [alike]
  | .fileUpload => by simp [alike]
  | .file => by simp [alike]
  | .ref _ => by simp [alike]
  | .array _ e => by simp [alike, alike_self e]
  | .object _ ps => by simp [alike, alikeProperties_self ps]
  | .oneOf _ vs => by simp [alike, alikeVariants_of_subset vs vs fun _ => id]

theorem alikeProperties_self :
    (ps : List (PropertyOf Descriptor)) → alikeProperties ps ps = true
  | [] => by simp [alikeProperties]
  | ⟨_, t, _, _⟩ :: ps => by simp [alikeProperties, alike_self t, alikeProperties_self ps]

theorem alikeVariants_of_subset :
    (vs ws : List (String × List Descriptor)) → (∀ v ∈ vs, v ∈ ws) → alikeVariants vs ws = true
  | [], _, _ => by simp [alikeVariants]
  | (tag, ms) :: vs, ws, h => by
    rw [List.forall_mem_cons] at h
    rw [alikeVariants, Bool.and_eq_true]
    refine ⟨List.any_eq_true.2 ⟨(tag, ms), h.1, ?_⟩, alikeVariants_of_subset vs ws h.2⟩
    simp [alikeMembers_self ms]

theorem alikeMembers_self : (ms : List Descriptor) → alikeMembers ms ms = true
  | [] => by simp [alikeMembers]
  | m :: ms => by simp [alikeMembers, alike_self m, alikeMembers_self ms]

end

mutual

/-- What is like a descriptor without sums is this descriptor. -/
theorem eq_of_alike : (t u : Descriptor) → t.SumFree → t.alike u = true → t = u
  | .primitive p, u, _, h => by cases u <;> simp_all [alike]
  | .fileUpload, u, _, h => by cases u <;> simp_all [alike]
  | .file, u, _, h => by cases u <;> simp_all [alike]
  | .ref p, u, _, h => by cases u <;> simp_all [alike]
  | .oneOf name vs, u, ht, h => absurd ht not_sumFree_oneOf
  | .array name? e, u, ht, h => by
    cases u with
    | array name?' f =>
        rw [alike, Bool.and_eq_true, beq_iff_eq] at h
        rw [h.1, eq_of_alike e f ht.element h.2]
    | _ => simp [alike] at h
  | .object name? ps, u, ht, h => by
    cases u with
    | object name?' qs =>
        rw [alike, Bool.and_eq_true, beq_iff_eq] at h
        rw [h.1, eq_of_alikeProperties ps qs (fun _ => ht.property) h.2]
    | _ => simp [alike] at h

theorem eq_of_alikeProperties :
    (ps qs : List (PropertyOf Descriptor)) → (∀ p ∈ ps, p.type.SumFree) →
      alikeProperties ps qs = true → ps = qs
  | [], qs, _, h => by
    cases qs with
    | nil => rfl
    | cons q qs => simp [alikeProperties] at h
  | ⟨n, t, f, r⟩ :: ps, qs, hps, h => by
    rw [List.forall_mem_cons] at hps
    cases qs with
    | nil => simp [alikeProperties] at h
    | cons q qs =>
        obtain ⟨m, u, g, s⟩ := q
        simp only [alikeProperties, Bool.and_eq_true, beq_iff_eq] at h
        obtain ⟨⟨⟨⟨rfl, ht⟩, rfl⟩, rfl⟩, hrest⟩ := h
        rw [eq_of_alike t u hps.1 ht, eq_of_alikeProperties ps qs hps.2 hrest]

end

theorem eq_of_alikeMembers {ms ns : List Descriptor} (hms : ∀ t ∈ ms, t.SumFree)
    (h : alikeMembers ms ns = true) : ms = ns := by
  induction ms generalizing ns with
  | nil =>
      cases ns with
      | nil => rfl
      | cons n ns => simp [alikeMembers] at h
  | cons m ms ih =>
      rw [List.forall_mem_cons] at hms
      cases ns with
      | nil => simp [alikeMembers] at h
      | cons n ns =>
          rw [alikeMembers, Bool.and_eq_true] at h
          rw [eq_of_alike m n hms.1 h.1, ih hms.2 h.2]

theorem subset_of_alikeVariants {vs ws : List (String × List Descriptor)}
    (hvs : ∀ v ∈ vs, ∀ t ∈ v.2, t.SumFree) (h : alikeVariants vs ws = true) : vs ⊆ ws := by
  induction vs with
  | nil => exact List.nil_subset ws
  | cons v vs ih =>
      obtain ⟨tag, ms⟩ := v
      rw [List.forall_mem_cons] at hvs
      rw [alikeVariants, Bool.and_eq_true] at h
      obtain ⟨⟨tag', ns⟩, hw, hlike⟩ := List.any_eq_true.1 h.1
      rw [Bool.and_eq_true, beq_iff_eq] at hlike
      obtain ⟨rfl, hmembers⟩ := hlike
      obtain rfl := eq_of_alikeMembers hvs.1 hmembers
      exact List.cons_subset.2 ⟨hw, ih hvs.2 h.2⟩

/-- What is like a sum without sums in it has its variants in some order. -/
theorem exists_perm_of_alike {name : String} {vs : List (String × List Descriptor)} {u : Descriptor}
    (hn : (vs.map Prod.fst).Nodup) (hvs : ∀ v ∈ vs, ∀ t ∈ v.2, t.SumFree)
    (h : (oneOf name vs).alike u = true) : ∃ ws, u = .oneOf name ws ∧ vs.Perm ws := by
  cases u with
  | oneOf name' ws =>
      simp only [alike, Bool.and_eq_true, beq_iff_eq] at h
      obtain ⟨⟨rfl, hlength⟩, hlike⟩ := h
      have hsub : List.Subperm vs ws :=
        (hn.of_map _).subperm (subset_of_alikeVariants hvs hlike)
      exact ⟨ws, rfl, hsub.perm_of_length_le hlength.ge⟩
  | _ => simp [alike] at h

end Likeness

end Descriptor

namespace Resolve

open Document (Schema)
open Descriptor (SumFree sumFree_primitive sumFree_ref sumFree_file sumFree_fileUpload sumFree_array
  sumFree_object)

section SumFree

variable {s : Schema} {context className namePrefix : String} {t : Descriptor} {d : Document}
  {m : Metadata} {ws : List Warning}

theorem sumFree_of_shapeOf? (h : shapeOf? s context = some t) : t.SumFree := by
  refine shape_induction (P := fun _ t => t.SumFree) (fun _ => sumFree_ref) (fun _ _ _ hu => ?_)
    (fun _ _ => sumFree_array) (fun _ _ => sumFree_object) h
  rcases scalarOf?_cases hu with rfl | ⟨q, rfl⟩
  · exact sumFree_fileUpload
  · exact sumFree_primitive q

theorem sumFree_of_expansion? {pointer : String} (h : expansion? d pointer = some t) :
    t.SumFree := by
  obtain ⟨s, name, -, -, hnamed⟩ := expansion?_eq_some_iff.1 h
  rcases namedShape?_cases hnamed with hs | ⟨it, e, rfl, he⟩ | ⟨ps, hps, rfl⟩
  · exact sumFree_of_shapeOf? hs
  · exact sumFree_array (sumFree_of_shapeOf? he)
  · refine sumFree_object fun p hp => ?_
    obtain ⟨s', hs'⟩ := exists_shape_of_mem hps p hp
    exact sumFree_of_shapeOf? hs'

theorem sumFree_of_describes {table : RefTable} {r : Document.Response} {v : Variant}
    (h : Describes table className r v) : ∀ t ∈ v.members, t.SumFree := by
  refine h.forall_members (fun _ _ => sumFree_of_shapeOf?) sumFree_file fun ps hps =>
    sumFree_object fun p hp => ?_
  obtain ⟨q, hq⟩ := hps p hp
  rw [hq]
  exact sumFree_primitive q

theorem tag_injective : Function.Injective Media.tag := by
  intro a b h
  cases a <;> cases b <;> first | rfl | exact absurd h (by decide)

/-- What code is generated from for an operation are sums of different variants, without sums in
them. -/
theorem exists_sum_of_operation (h : d.resolve namePrefix = .ok (m, ws)) {o : Operation}
    (ho : o ∈ m.operations) (ht : t ∈ Emit.sumsOf o) :
    ∃ name vs, t = .oneOf name vs ∧ (vs.map Prod.fst).Nodup ∧
      ∀ v ∈ vs, ∀ u ∈ v.2, u.SumFree := by
  rcases List.mem_cons.1 ht with rfl | hbody
  · obtain ⟨_, _, _, hr⟩ := exists_run_responseBody h ho
    have hn := nodup_names_of_responseBody hr
    refine ⟨_, _, sum_eq hn, ?_, fun v hv => ?_⟩
    · rw [List.map_map]
      exact hn
    · obtain ⟨e, he, rfl⟩ := List.mem_map.1 hv
      obtain ⟨r, hdescribes⟩ := exists_describes_of_responseBody hr he
      exact sumFree_of_describes hdescribes
  · obtain ⟨b, hb, rfl⟩ := Option.map_eq_some_iff.1 (Option.mem_toList.1 hbody)
    obtain ⟨_, _, _, hr⟩ := exists_run_requestBody h ho hb
    obtain ⟨rb, -, -, hcontent, -⟩ := run_requestBody hr
    refine ⟨_, _, rfl, ?_, fun v hv u hu => ?_⟩
    · have hmedia : (b.content.map Prod.fst).Nodup := hcontent ▸ nodup_keptContents rb.content
      have hkeys : (b.content.map fun e => (e.1.tag, [e.2])).map Prod.fst =
          (b.content.map Prod.fst).map Media.tag := by
        rw [List.map_map, List.map_map]
        rfl
      rw [hkeys]
      exact hmedia.map tag_injective
    · obtain ⟨e, he, rfl⟩ := List.mem_map.1 hv
      obtain ⟨pointer, hpointer⟩ := exists_ref_of_requestBody hr he
      rw [List.mem_singleton.1 hu, hpointer]
      exact sumFree_ref pointer

/-- What code is generated from is a sum of an operation, or has no sums in it. -/
theorem sum_or_sumFree (h : d.resolve namePrefix = .ok (m, ws)) (ht : t ∈ Emit.allParts m) :
    (∃ o ∈ m.operations, t ∈ Emit.sumsOf o) ∨ t.SumFree := by
  obtain ⟨root, hroot, ht⟩ := List.mem_flatMap.1 ht
  rcases List.mem_append.1 hroot with hroot | hroot
  · obtain ⟨⟨p, u⟩, he, rfl⟩ := List.mem_map.1 hroot
    have hu := sumFree_of_expansion? ((settled_of_resolve h).get? (RefTable.get?_of_mem_entries he))
    exact Or.inr (hu.of_mem_parts ht)
  · obtain ⟨o, ho, hsum⟩ := List.mem_flatMap.1 hroot
    obtain ⟨name, vs, rfl, -, hvs⟩ := exists_sum_of_operation h ho hsum
    rw [Descriptor.parts, Descriptor.variantParts_eq] at ht
    rcases List.mem_cons.1 ht with rfl | ht
    · exact Or.inl ⟨o, ho, hsum⟩
    · obtain ⟨v, hv, ht⟩ := List.mem_flatMap.1 ht
      obtain ⟨u, hu, ht⟩ := List.mem_flatMap.1 ht
      exact Or.inr ((hvs v hv u hu).of_mem_parts ht)

/-- The only sums that code is generated from are those of responses and of request bodies. -/
theorem exists_operation_of_sum (h : d.resolve namePrefix = .ok (m, ws)) {name : String}
    {vs : List (String × List Descriptor)} (ht : .oneOf name vs ∈ Emit.allParts m) :
    ∃ o ∈ m.operations, .oneOf name vs ∈ Emit.sumsOf o :=
  (sum_or_sumFree h ht).resolve_right Descriptor.not_sumFree_oneOf

/-- What is like a sum has its variants in some order. -/
theorem exists_perm_of_alike_part (h : d.resolve namePrefix = .ok (m, ws))
    (ht : t ∈ Emit.allParts m)
    {name : String} {vs : List (String × List Descriptor)}
    (hlike : t.alike (.oneOf name vs) = true) :
    ∃ vs', t = .oneOf name vs' ∧ vs'.Perm vs := by
  cases t with
  | oneOf name' vs' =>
      obtain ⟨o, ho, hsum⟩ := exists_operation_of_sum h ht
      obtain ⟨_, _, he, hn, hvs⟩ := exists_sum_of_operation h ho hsum
      obtain ⟨rfl, rfl⟩ := Descriptor.oneOf.inj he
      obtain ⟨_, he', hperm⟩ := Descriptor.exists_perm_of_alike hn hvs hlike
      obtain ⟨rfl, rfl⟩ := Descriptor.oneOf.inj he'
      exact ⟨vs', rfl, hperm⟩
  | _ => simp [Descriptor.alike] at hlike

/-- What is like anything else is the same. -/
theorem eq_of_alike_part (h : d.resolve namePrefix = .ok (m, ws)) (ht : t ∈ Emit.allParts m)
    (hne : ∀ name vs, t ≠ .oneOf name vs) {u : Descriptor} (hu : t.alike u = true) : t = u := by
  refine Descriptor.eq_of_alike t u ((sum_or_sumFree h ht).resolve_left ?_) hu
  rintro ⟨o, ho, hsum⟩
  obtain ⟨name, vs, he, -⟩ := exists_sum_of_operation h ho hsum
  exact hne name vs he

end SumFree

end Resolve

end ApiContract
