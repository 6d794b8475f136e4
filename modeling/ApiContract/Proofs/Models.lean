import ApiContract.Proofs.ModelTexts
import ApiContract.Proofs.References

/-!
# The models of metadata

**Input:** the descriptors that code is generated from, with everything inside them.

A part of a part is a part (`Descriptor.parts_subset`).  Going through a descriptor is the same as
claiming a name for each of its parts in turn (`visit_eq_forM_parts`), so what is collected can be
said of a list of descriptors.

**Results:**

* `Collected`: every model was made from the first descriptor of the list with its name and has its
  shape, every descriptor that has a name has a model of this name, and no two models have the same
  name;
* `collected_of_models`: this holds of the models of metadata;
* `generated_of_models`: every model is generated.
-/

namespace ApiContract

/-! ## Parts -/

namespace Descriptor

theorem mem_parts_self (t : Descriptor) : t ∈ t.parts := by
  cases t <;> simp [parts]

mutual

theorem parts_subset {u : Descriptor} : (t : Descriptor) → u ∈ t.parts → u.parts ⊆ t.parts
  | .primitive _, h => by simp_all [parts]
  | .fileUpload, h => by simp_all [parts]
  | .file, h => by simp_all [parts]
  | .ref _, h => by simp_all [parts]
  | .array n e, h => by
      rw [parts] at h ⊢
      rcases List.mem_cons.1 h with rfl | h
      · rw [parts]
        exact List.Subset.refl _
      · exact List.subset_cons_of_subset _ (parts_subset e h)
  | .object n ps, h => by
      rw [parts] at h ⊢
      rcases List.mem_cons.1 h with rfl | h
      · rw [parts]
        exact List.Subset.refl _
      · exact List.subset_cons_of_subset _ (propertyParts_subset ps h)
  | .oneOf n vs, h => by
      rw [parts] at h ⊢
      rcases List.mem_cons.1 h with rfl | h
      · rw [parts]
        exact List.Subset.refl _
      · exact List.subset_cons_of_subset _ (variantParts_subset vs h)

theorem propertyParts_subset {u : Descriptor} :
    (ps : List (PropertyOf Descriptor)) → u ∈ propertyParts ps → u.parts ⊆ propertyParts ps
  | [], h => by simp [propertyParts] at h
  | ⟨_, t, _, _⟩ :: ps, h => by
      rw [propertyParts] at h ⊢
      rcases List.mem_append.1 h with h | h
      · exact List.subset_append_of_subset_left _ (parts_subset t h)
      · exact List.subset_append_of_subset_right _ (propertyParts_subset ps h)

theorem variantParts_subset {u : Descriptor} :
    (vs : List (String × List Descriptor)) → u ∈ variantParts vs → u.parts ⊆ variantParts vs
  | [], h => by simp [variantParts] at h
  | (_, ms) :: vs, h => by
      rw [variantParts] at h ⊢
      rcases List.mem_append.1 h with h | h
      · exact List.subset_append_of_subset_left _ (memberParts_subset ms h)
      · exact List.subset_append_of_subset_right _ (variantParts_subset vs h)

theorem memberParts_subset {u : Descriptor} :
    (ms : List Descriptor) → u ∈ memberParts ms → u.parts ⊆ memberParts ms
  | [], h => by simp [memberParts] at h
  | m :: ms, h => by
      rw [memberParts] at h ⊢
      rcases List.mem_append.1 h with h | h
      · exact List.subset_append_of_subset_left _ (parts_subset m h)
      · exact List.subset_append_of_subset_right _ (memberParts_subset ms h)

end

theorem mem_parts_array {name? : Option String} {e u : Descriptor} (hu : u ∈ e.parts) :
    u ∈ (Descriptor.array name? e).parts := by
  rw [parts]
  exact List.mem_cons_of_mem _ hu

theorem mem_propertyParts {p : Property} {ps : List Property} (hp : p ∈ ps) :
    p.type ∈ propertyParts ps := by
  induction ps with
  | nil => cases hp
  | cons q ps ih =>
      obtain ⟨name, t, format, required⟩ := q
      rw [propertyParts]
      rcases List.mem_cons.1 hp with rfl | hp
      · exact List.mem_append_left _ (mem_parts_self t)
      · exact List.mem_append_right _ (ih hp)

theorem mem_memberParts {u : Descriptor} {ms : List Descriptor} (hu : u ∈ ms) :
    u ∈ memberParts ms := by
  induction ms with
  | nil => cases hu
  | cons m ms ih =>
      rw [memberParts]
      rcases List.mem_cons.1 hu with rfl | hu
      · exact List.mem_append_left _ (mem_parts_self u)
      · exact List.mem_append_right _ (ih hu)

theorem mem_variantParts {v : String × List Descriptor} {vs : List (String × List Descriptor)}
    {u : Descriptor} (hv : v ∈ vs) (hu : u ∈ v.2) : u ∈ variantParts vs := by
  induction vs with
  | nil => cases hv
  | cons w vs ih =>
      obtain ⟨tag, ms⟩ := w
      rw [variantParts]
      rcases List.mem_cons.1 hv with rfl | hv
      · exact List.mem_append_left _ (mem_memberParts hu)
      · exact List.mem_append_right _ (ih hv)

end Descriptor

namespace Emit

/-! ## Claims -/

/-- The name and the shape of the model of a descriptor, if it has one. -/
def modelOf? (refs : RefTable) : Descriptor → Option (String × Emitting ModelShape)
  | .array (some name) e => some (name, wrapperShape refs name e)
  | .object (some name) ps => some (name, recordShape refs ps)
  | .oneOf name vs => some (name, sumShape refs vs)
  | _ => none

/-- Claims the name of a descriptor, if it has one. -/
def claimPart (refs : RefTable) (t : Descriptor) : Collecting Unit :=
  match modelOf? refs t with
  | none => pure ()
  | some (name, shape) => claim name t shape

mutual

theorem visit_eq_forM_parts (refs : RefTable) :
    (t : Descriptor) → visit refs t = t.parts.forM (claimPart refs)
  | .primitive _ => by simp [visit, Descriptor.parts, claimPart, modelOf?]
  | .fileUpload => by simp [visit, Descriptor.parts, claimPart, modelOf?]
  | .file => by simp [visit, Descriptor.parts, claimPart, modelOf?]
  | .ref _ => by simp [visit, Descriptor.parts, claimPart, modelOf?]
  | .array name? e => by
      have ih := visit_eq_forM_parts refs e
      cases name? <;> simp [visit, Descriptor.parts, claimPart, modelOf?, ih]
  | .object name? ps => by
      have ih := visitProperties_eq_forM_parts refs ps
      cases name? <;> simp [visit, Descriptor.parts, claimPart, modelOf?, ih]
  | .oneOf name vs => by
      have ih := visitVariants_eq_forM_parts refs vs
      simp [visit, Descriptor.parts, claimPart, modelOf?, ih]

theorem visitProperties_eq_forM_parts (refs : RefTable) :
    (ps : List (PropertyOf Descriptor)) →
      visitProperties refs ps = (Descriptor.propertyParts ps).forM (claimPart refs)
  | [] => by simp [visitProperties, Descriptor.propertyParts]
  | ⟨_, t, _, _⟩ :: ps => by
      have iht := visit_eq_forM_parts refs t
      have ihps := visitProperties_eq_forM_parts refs ps
      simp [visitProperties, Descriptor.propertyParts, iht, ihps]

theorem visitVariants_eq_forM_parts (refs : RefTable) :
    (vs : List (String × List Descriptor)) →
      visitVariants refs vs = (Descriptor.variantParts vs).forM (claimPart refs)
  | [] => by simp [visitVariants, Descriptor.variantParts]
  | (_, ms) :: vs => by
      have ihms := visitMembers_eq_forM_parts refs ms
      have ihvs := visitVariants_eq_forM_parts refs vs
      simp [visitVariants, Descriptor.variantParts, ihms, ihvs]

theorem visitMembers_eq_forM_parts (refs : RefTable) :
    (ms : List Descriptor) →
      visitMembers refs ms = (Descriptor.memberParts ms).forM (claimPart refs)
  | [] => by simp [visitMembers, Descriptor.memberParts]
  | m :: ms => by
      have ihm := visit_eq_forM_parts refs m
      have ihms := visitMembers_eq_forM_parts refs ms
      simp [visitMembers, Descriptor.memberParts, ihm, ihms]

end

/-! ## Runs -/

section Runs

variable {α β : Type} {x : Collecting α} {f : α → Collecting β} {a : α} {b : β}
  {c c' : Collection}

theorem collecting_bind_eq_ok :
    (x >>= f).run.run c = (.ok b, c') ↔
      ∃ a c₁, x.run.run c = (.ok a, c₁) ∧ (f a).run.run c₁ = (.ok b, c') := by
  rw [ExceptT.run_bind]
  cases hx : x.run.run c with
  | mk r c₁ =>
      have hrun : ∀ g : Except EmitError α → StateM Collection (Except EmitError β),
          (x.run >>= g).run c = (g r).run c₁ := by
        intro g
        rw [StateT.run_bind, hx]
        rfl
      rw [hrun]
      cases r with
      | error e =>
          constructor
          · intro h
            cases h
          · rintro ⟨a, c₂, h, -⟩
            cases h
      | ok a =>
          constructor
          · intro h
            exact ⟨a, c₁, rfl, h⟩
          · rintro ⟨a', c₂, h, h'⟩
            cases h
            exact h'

theorem collecting_pure_eq_ok :
    (pure a : Collecting α).run.run c = (.ok a, c') ↔ c = c' := by
  constructor
  · intro h
    exact (Prod.mk.inj h).2
  · rintro rfl
    rfl

theorem collecting_lift_eq_ok {r : Emitting α} :
    (ExceptT.mk (pure r) : Collecting α).run.run c = (.ok a, c') ↔ r = .ok a ∧ c = c' := by
  constructor
  · intro h
    exact Prod.mk.inj h
  · rintro ⟨rfl, rfl⟩
    rfl

/-- A name that is taken stays with its model; a free one gets a new model at the end. -/
theorem models_of_claim {name : String} {t : Descriptor} {shape : Emitting ModelShape} {u : Unit}
    (h : (claim name t shape).run.run c = (.ok u, c')) :
    ((∃ r ∈ c.models, r.name = name) ∧ c'.models = c.models) ∨
      (∀ r ∈ c.models, r.name ≠ name) ∧
        ∃ s, shape = .ok s ∧ c'.models = c.models ++ [⟨name, some t, s⟩] := by
  unfold claim at h
  obtain ⟨c₀, c₁, hget, h⟩ := collecting_bind_eq_ok.1 h
  obtain ⟨hc₀, rfl⟩ := Prod.mk.inj hget
  obtain rfl := Except.ok.inj hc₀
  cases hfind : c.models.find? (·.name == name) with
  | some r =>
      have hr : r ∈ c.models ∧ r.name = name :=
        ⟨List.mem_of_find?_eq_some hfind, by simpa using List.find?_some hfind⟩
      refine Or.inl ⟨⟨r, hr⟩, ?_⟩
      rw [hfind] at h
      dsimp only at h
      split at h
      · obtain ⟨-, rfl⟩ := Prod.mk.inj h
        rfl
      · obtain ⟨-, rfl⟩ := Prod.mk.inj h
        rfl
  | none =>
      refine Or.inr ⟨fun r hr => by simpa using List.find?_eq_none.1 hfind r hr, ?_⟩
      rw [hfind] at h
      obtain ⟨s, c₂, hs, h⟩ := collecting_bind_eq_ok.1 h
      obtain ⟨rfl, rfl⟩ := collecting_lift_eq_ok.1 hs
      obtain ⟨-, rfl⟩ := Prod.mk.inj h
      exact ⟨s, rfl, rfl⟩

end Runs

/-! ## What is collected -/

/-- The model of received files, which is always there. -/
def upload : Model :=
  ⟨uploadModel, none, .upload⟩

theorem name?_of_modelOf? {refs : RefTable} {t : Descriptor} {name : String}
    {shape : Emitting ModelShape} (h : modelOf? refs t = some (name, shape)) :
    t.name? = some name := by
  unfold modelOf? at h
  split at h <;> cases h <;> rfl

theorem exists_modelOf? (refs : RefTable) {t : Descriptor} {name : String}
    (h : t.name? = some name) :
    ∃ shape, modelOf? refs t = some (name, shape) := by
  unfold Descriptor.name? at h
  split at h
  · rw [h]
    exact ⟨_, rfl⟩
  · rw [h]
    exact ⟨_, rfl⟩
  · rw [← Option.some.inj h]
    exact ⟨_, rfl⟩
  · cases h

/-- Models collected from descriptors. -/
structure Collected (refs : RefTable) (seen : List Descriptor) (ms : List Model) : Prop where
  /-- The record of received files is one of them. -/
  upload_mem : upload ∈ ms
  /-- A name is that of one model, which occurs once. -/
  nodup : (ms.map (·.name)).Nodup
  /-- Every other model was made from the first descriptor with its name, and has its shape. -/
  first : ∀ r ∈ ms, r = upload ∨
    ∃ t, seen.find? (·.name? == some r.name) = some t ∧ r.descriptor = some t ∧
      modelOf? refs t = some (r.name, .ok r.shape)
  /-- Every descriptor with a name has a model of this name. -/
  found : ∀ t ∈ seen, ∀ name shape, modelOf? refs t = some (name, shape) → ∃ r ∈ ms, r.name = name

namespace Collected

variable {refs : RefTable} {seen : List Descriptor} {ms : List Model} {c c' : Collection}

/-- A name is that of one model. -/
theorem unique (h : Collected refs seen ms) :
    ∀ r ∈ ms, ∀ s ∈ ms, r.name = s.name → r = s :=
  fun _ hr _ hs he => List.inj_on_of_nodup_map h.nodup hr hs he

/-- Every model but that of received files was made from a descriptor with its name. -/
theorem made (h : Collected refs seen ms) : ∀ r ∈ ms, r = upload ∨
    ∃ t ∈ seen, r.descriptor = some t ∧ modelOf? refs t = some (r.name, .ok r.shape) := by
  intro r hr
  rcases h.first r hr with rfl | ⟨t, ht, hmade⟩
  · exact Or.inl rfl
  · exact Or.inr ⟨t, List.mem_of_find?_eq_some ht, hmade⟩

theorem start (refs : RefTable) : Collected refs [] [upload] where
  upload_mem := by simp
  nodup := by simp
  first := by simp
  found := by simp

/-- What was made from the first descriptor with its name still was after one more. -/
theorem first_append (h : Collected refs seen ms) (t : Descriptor) : ∀ r ∈ ms, r = upload ∨
    ∃ u, (seen ++ [t]).find? (·.name? == some r.name) = some u ∧ r.descriptor = some u ∧
      modelOf? refs u = some (r.name, .ok r.shape) := by
  intro r hr
  rcases h.first r hr with rfl | ⟨u, hu, hmade⟩
  · exact Or.inl rfl
  · refine Or.inr ⟨u, ?_, hmade⟩
    rw [List.find?_append, hu, Option.some_or]

/-- A descriptor without a name, or whose name is taken, adds no model. -/
theorem pass (h : Collected refs seen ms) {t : Descriptor}
    (ht : ∀ name shape, modelOf? refs t = some (name, shape) → ∃ r ∈ ms, r.name = name) :
    Collected refs (seen ++ [t]) ms where
  upload_mem := h.upload_mem
  nodup := h.nodup
  first := h.first_append t
  found := by
    intro u hu name shape hm
    rcases List.mem_append.1 hu with hu | hu
    · exact h.found u hu name shape hm
    · obtain rfl := List.mem_singleton.1 hu
      exact ht name shape hm

/-- A descriptor whose name is free adds its model. -/
theorem add (h : Collected refs seen ms) {t : Descriptor} {name : String} {shape : ModelShape}
    (ht : modelOf? refs t = some (name, .ok shape)) (hfree : ∀ r ∈ ms, r.name ≠ name) :
    Collected refs (seen ++ [t]) (ms ++ [⟨name, some t, shape⟩]) where
  upload_mem := List.mem_append_left _ h.upload_mem
  nodup := by
    rw [List.map_append, List.map_cons, List.map_nil, ← List.concat_eq_append, List.nodup_concat]
    refine ⟨fun hm => ?_, h.nodup⟩
    obtain ⟨r, hr, he⟩ := List.mem_map.1 hm
    exact hfree r hr he
  first := by
    intro r hr
    rcases List.mem_append.1 hr with hr | hr
    · exact h.first_append t r hr
    · obtain rfl := List.mem_singleton.1 hr
      refine Or.inr ⟨t, ?_, rfl, ht⟩
      -- A descriptor with this name would have a model already.
      have hnone : seen.find? (·.name? == some name) = none := by
        rw [List.find?_eq_none]
        intro u hu hname
        obtain ⟨s, hs⟩ := exists_modelOf? refs (beq_iff_eq.1 hname)
        obtain ⟨r, hr, he⟩ := h.found u hu name s hs
        exact hfree r hr he
      rw [List.find?_append, hnone, Option.none_or]
      simp [name?_of_modelOf? ht]
  found := by
    intro u hu name' shape' hm
    rcases List.mem_append.1 hu with hu | hu
    · obtain ⟨r, hr, he⟩ := h.found u hu name' shape' hm
      exact ⟨r, List.mem_append_left _ hr, he⟩
    · obtain rfl := List.mem_singleton.1 hu
      obtain ⟨rfl, -⟩ := Prod.mk.inj (Option.some.inj (ht.symm.trans hm))
      exact ⟨⟨name, some u, shape⟩, by simp, rfl⟩

/-- Claiming the name of one more descriptor. -/
theorem step (h : Collected refs seen c.models) {t : Descriptor} {u : Unit}
    (hr : (claimPart refs t).run.run c = (.ok u, c')) : Collected refs (seen ++ [t]) c'.models := by
  unfold claimPart at hr
  split at hr
  · rename_i hm
    obtain rfl := collecting_pure_eq_ok.1 hr
    exact h.pass fun name shape hm' => by simp [hm] at hm'
  · rename_i name shape hm
    rcases models_of_claim hr with ⟨htaken, he⟩ | ⟨hfree, s, rfl, he⟩
    · rw [he]
      refine h.pass fun name' shape' hm' => ?_
      obtain ⟨rfl, -⟩ := Prod.mk.inj (Option.some.inj (hm.symm.trans hm'))
      exact htaken
    · rw [he]
      exact h.add hm hfree

/-- Claiming the names of descriptors one after another. -/
theorem run (h : Collected refs seen c.models) {ts : List Descriptor} {u : Unit}
    (hr : (ts.forM (claimPart refs)).run.run c = (.ok u, c')) :
    Collected refs (seen ++ ts) c'.models := by
  induction ts generalizing seen c with
  | nil =>
      obtain rfl := collecting_pure_eq_ok.1 hr
      rwa [List.append_nil]
  | cons t ts ih =>
      rw [List.forM_eq_forM, List.forM_cons, ← List.forM_eq_forM] at hr
      obtain ⟨_, c₁, ht, hr⟩ := collecting_bind_eq_ok.1 hr
      have hall := ih (h.step ht) hr
      rwa [List.append_assoc, List.singleton_append] at hall

end Collected

/-- Everything that code is generated from, at any depth. -/
def allParts (m : Metadata) : List Descriptor :=
  (roots m).flatMap Descriptor.parts

section AllParts

variable {m : Metadata} {u : Descriptor}

theorem mem_allParts_of_get? {q : String} (h : m.refs.get? q = some u) : u ∈ allParts m := by
  have hroot : u ∈ roots m :=
    List.mem_append_left _ (List.mem_map.2 ⟨(q, u), RefTable.mem_entries_of_get? h, rfl⟩)
  exact List.mem_flatMap.2 ⟨u, hroot, u.mem_parts_self⟩

theorem mem_allParts_of_mem_sumsOf {o : Operation} (ho : o ∈ m.operations) (hu : u ∈ sumsOf o) :
    u ∈ allParts m := by
  have hroot : u ∈ roots m := List.mem_append_right _ (List.mem_flatMap.2 ⟨o, ho, hu⟩)
  exact List.mem_flatMap.2 ⟨u, hroot, u.mem_parts_self⟩

/-- A part of a part is a part. -/
theorem mem_allParts_of_mem_parts {t : Descriptor} (ht : t ∈ allParts m) (hu : u ∈ t.parts) :
    u ∈ allParts m := by
  obtain ⟨root, hroot, ht⟩ := List.mem_flatMap.1 ht
  exact List.mem_flatMap.2 ⟨root, hroot, Descriptor.parts_subset root ht hu⟩

theorem mem_allParts_of_property {name? : Option String} {ps : List Property} {p : Property}
    (ht : .object name? ps ∈ allParts m) (hp : p ∈ ps) : p.type ∈ allParts m := by
  refine mem_allParts_of_mem_parts ht ?_
  rw [Descriptor.parts]
  exact List.mem_cons_of_mem _ (Descriptor.mem_propertyParts hp)

theorem mem_allParts_of_member {name : String} {vs : List (String × List Descriptor)}
    {v : String × List Descriptor} (ht : .oneOf name vs ∈ allParts m) (hv : v ∈ vs) (hu : u ∈ v.2) :
    u ∈ allParts m := by
  refine mem_allParts_of_mem_parts ht ?_
  rw [Descriptor.parts]
  exact List.mem_cons_of_mem _ (Descriptor.mem_variantParts hv hu)

end AllParts

theorem forM_visit (refs : RefTable) (ts : List Descriptor) :
    ts.forM (visit refs) = (ts.flatMap Descriptor.parts).forM (claimPart refs) := by
  induction ts with
  | nil => rfl
  | cons t ts ih =>
      rw [List.forM_eq_forM] at ih ⊢
      rw [List.forM_cons, ih, visit_eq_forM_parts]
      simp only [List.forM_eq_forM, List.flatMap_cons, List.forM_append]

/-- The names are checked first, which collects nothing; then everything is gone through. -/
def collecting (m : Metadata) : Collecting Unit :=
  ExceptT.mk (pure (checkNames m)) >>= fun _ => (roots m).forM (visit m.refs)

theorem models_eq (m : Metadata) :
    (models m).1 = ((collecting m).run.run { models := [upload] }).1.map fun _ =>
      ((collecting m).run.run { models := [upload] }).2.models :=
  rfl

/-- The models of metadata with legal names are those that its parts claim, one after another. -/
theorem models_of_claims {m : Metadata} {claims : Collecting Unit} (hcheck : checkNames m = .ok ())
    (hclaims : (allParts m).forM (claimPart m.refs) = claims) :
    (models m).1 = (claims.run.run { models := [upload] }).1.map fun _ =>
      (claims.run.run { models := [upload] }).2.models := by
  unfold allParts at hclaims
  rw [models_eq, collecting, forM_visit, hclaims, hcheck]
  rfl

/-- The models of metadata are those collected from everything that code is generated from. -/
theorem collected_of_models {m : Metadata} {ms : List Model} (h : (models m).1 = .ok ms) :
    Collected m.refs (allParts m) ms := by
  rw [models_eq] at h
  cases hrun : (collecting m).run.run { models := [upload] } with
  | mk r c =>
      rw [hrun] at h
      cases r with
      | error e => cases h
      | ok u =>
          obtain rfl := Except.ok.inj h
          obtain ⟨_, c₁, hcheck, hvisit⟩ := collecting_bind_eq_ok.1 hrun
          obtain ⟨-, rfl⟩ := collecting_lift_eq_ok.1 hcheck
          rw [forM_visit] at hvisit
          exact (Collected.start m.refs).run hvisit

/-! ## Modules -/

theorem modelModules_eq_ok {m : Metadata} {mods : List SourceModule} :
    (modelModules m).1 = .ok mods ↔
      ∃ ms, (models m).1 = .ok ms ∧ mods = exportModule ms :: ms.map (·.sourceModule) := by
  have hmodules : (modelModules m).1 =
      (models m).1.map fun ms => exportModule ms :: ms.map (·.sourceModule) := rfl
  rw [hmodules]
  cases (models m).1 with
  | error e => simp [Except.map]
  | ok ms => simp [Except.map, eq_comm]

/-- A module is generated for a model, at a place of its own below the models. -/
def ModuleOf (m : Metadata) (r : Model) (s : SourceModule) : Prop :=
  ∃ mods, (modelModules m).1 = .ok mods ∧ s ∈ mods ∧ s.place = ["models", Naming.fieldIdent r.name]

/-- A model is generated: its module has the text of the model. -/
def Generated (m : Metadata) (r : Model) : Prop :=
  ∃ s, ModuleOf m r s ∧ ModelText r.name r.shape s.code

theorem generated_of_models {m : Metadata} {ms : List Model} (h : (models m).1 = .ok ms) {r : Model}
    (hr : r ∈ ms) : Generated m r := by
  have hmods := modelModules_eq_ok.2 ⟨ms, h, rfl⟩
  have hmem : r.sourceModule ∈ exportModule ms :: ms.map (·.sourceModule) :=
    List.mem_cons_of_mem _ (List.mem_map_of_mem hr)
  exact ⟨r.sourceModule, ⟨_, hmods, hmem, rfl⟩, r.text⟩

end Emit
end ApiContract
