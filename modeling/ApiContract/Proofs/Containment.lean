import ApiContract.Proofs.Documents
import ApiContract.Proofs.Emission
import ApiContract.Proofs.Fields
import ApiContract.Proofs.Sums

/-!
# Records that contain themselves

**Input:** metadata whose models can be generated, in which a type name belongs to one descriptor.

A record contains another by value if it has a field for it without a box, a list or a map in
between.  A record that contains itself in this way has no finite size.

**Results:**

* `Unboxed`: the pointers that the record behind a pointer holds by value, as the table has it;
* `exists_embeds_iff`: a generated record contains itself if and only if there is a cycle of such
  pointers;
* `resolve_containment`: in resolved documents this can only be where a schema is nothing but
  another name of a marked one.
-/

namespace ApiContract

namespace Emit

/-- Descriptors that code is generated from have the same type name only if they are the same, but
for the order of variants. -/
def DistinctNames (m : Metadata) : Prop :=
  ∀ t ∈ allParts m, ∀ u ∈ allParts m, ∀ name, t.name? = some name → u.name? = some name →
    t.alike u = true

/-- This holds if no name occurs twice. -/
theorem distinctNames_of_pairwise {m : Metadata}
    (h : (allParts m).Pairwise fun t u => t.name? = none ∨ t.name? ≠ u.name?) :
    DistinctNames m := by
  have hsymm : Std.Symm fun t u : Descriptor => t.name? = none ∨ t.name? ≠ u.name? := by
    refine ⟨?_⟩
    rintro t u (hnone | hne)
    · by_cases hu : u.name? = none
      · exact Or.inl hu
      · exact Or.inr (hnone ▸ hu)
    · exact Or.inr hne.symm
  intro t ht u hu name htname huname
  by_cases he : t = u
  · rw [he]
    exact u.alike_self
  · rcases h.forall ht hu he with hnone | hne
    · rw [hnone] at htname
      cases htname
    · exact absurd (htname.trans huname.symm) hne

/-- What has the type name of something that is no sum is the same. -/
def DistinctRecords (m : Metadata) : Prop :=
  ∀ t ∈ allParts m, (∀ name vs, t ≠ .oneOf name vs) → ∀ u ∈ allParts m, ∀ name,
    t.name? = some name → u.name? = some name → t = u

theorem DistinctNames.records {d : Document} {namePrefix : String} {m : Metadata}
    {ws : List Warning}
    (h : d.resolve namePrefix = .ok (m, ws)) (hd : DistinctNames m) : DistinctRecords m :=
  fun t ht hne u hu name htname huname =>
    Resolve.eq_of_alike_part h ht hne (hd t ht u hu name htname huname)

/-- A generated record has a field that holds another by value. -/
def Embeds (ms : List Model) (r s : Model) : Prop :=
  r ∈ ms ∧ s ∈ ms ∧ ∃ fields, r.shape = .record fields ∧ ∃ f ∈ fields, f.type.held? = some s.name

theorem Embeds.record {ms : List Model} {r s : Model} (h : Embeds ms r s) :
    ∃ fields, r.shape = .record fields := by
  obtain ⟨-, -, fields, hshape, -⟩ := h
  exact ⟨fields, hshape⟩

/-- The record that a descriptor becomes has a field that holds by value what another becomes. -/
def Holds (refs : RefTable) (t u : Descriptor) : Prop :=
  ∃ name ps, t = .object (some name) ps ∧ name ≠ uploadModel ∧
    ∃ p ∈ ps, closesCycle refs p.type = false ∧ refs.resolve? p.type = some u

/-- A record writes a pointer in one of its fields, or in a field of a record in place. -/
inductive Writes : Descriptor → String → Prop
  | field {name q : String} {ps : List Property} {p : Property}
      (hname : name ≠ uploadModel)
      (hp : p ∈ ps)
      (hq : p.type = .ref q) :
      Writes (.object (some name) ps) q
  | inner {name q : String} {ps : List Property} {p : Property}
      (hname : name ≠ uploadModel)
      (hp : p ∈ ps)
      (hq : Writes p.type q) :
      Writes (.object (some name) ps) q

/-- The record behind a pointer writes another pointer, which is not marked. -/
def Unboxed (refs : RefTable) (p q : String) : Prop :=
  ∃ u, refs.resolve? (.ref p) = some u ∧ Writes u q ∧ refs.isRecursive q = false

/-! ## Fields -/

section Fields

variable {refs : RefTable} {ps : List Property} {fields : List Field} {shape : ModelShape}

/-- A field is that of a property. -/
structure IsField (refs : RefTable) (p : Property) (f : Field) : Prop where
  ident : f.ident = Naming.fieldIdent p.name
  wire : f.wire = p.name
  type : fieldType refs p = .ok f.type
  required : f.required = p.required
  format : f.format = p.format

theorem fieldOf_eq_ok {p : Property} {f : Field} (h : fieldOf refs p = .ok f) :
    IsField refs p f := by
  obtain ⟨t, ht, h⟩ := bind_eq_ok.1 h
  rw [← Except.ok.inj h]
  exact ⟨rfl, rfl, ht, rfl, rfl⟩

/-- The fields of a record are those of its properties. -/
theorem fields_of_recordShape (h : recordShape refs ps = .ok (.record fields)) :
    List.Forall₂ (IsField refs) ps fields := by
  unfold recordShape at h
  split at h
  · cases h
  · obtain ⟨rest, hps, hr⟩ := map_eq_ok.1 h
    cases hr
    exact (mapM_eq_ok.1 hps).imp fun _ _ => fieldOf_eq_ok

/-- A record with a property has fields. -/
theorem exists_fields_of_recordShape {p : Property} (hp : p ∈ ps)
    (h : recordShape refs ps = .ok shape) : ∃ fields, shape = .record fields := by
  unfold recordShape at h
  split at h
  · rename_i he
    rw [List.isEmpty_iff.1 he] at hp
    cases hp
  · obtain ⟨rest, -, hr⟩ := map_eq_ok.1 h
    exact ⟨rest, hr.symm⟩

/-- A descriptor whose model has a field that holds another model is a record, and the field is that
of one of its properties. -/
theorem exists_property_of_held? {t : Descriptor} {name n : String} {f : Field}
    (h : modelOf? refs t = some (name, .ok (.record fields))) (hf : f ∈ fields)
    (hheld : f.type.held? = some n) :
    ∃ ps, t = .object (some name) ps ∧ ∃ p ∈ ps, fieldType refs p = .ok f.type := by
  unfold modelOf? at h
  split at h
  · -- The field of a named array is a list.
    rename_i name' e
    obtain ⟨rfl, hs⟩ := Prod.mk.inj (Option.some.inj h)
    obtain ⟨p, hp, hfield⟩ := exists_of_mem_right (fields_of_recordShape hs) hf
    obtain rfl := List.mem_singleton.1 hp
    obtain ⟨-, u, hu, hn⟩ := (held?_fieldType hfield.type).1 hheld
    rw [resolve?_of_pointer?_eq_none rfl] at hu
    obtain rfl := Option.some.inj hu
    simp [modelName?, Descriptor.name?] at hn
  · rename_i name' ps
    obtain ⟨rfl, hs⟩ := Prod.mk.inj (Option.some.inj h)
    obtain ⟨p, hp, hfield⟩ := exists_of_mem_right (fields_of_recordShape hs) hf
    exact ⟨ps, rfl, p, hp, hfield.type⟩
  · -- A sum has no fields.
    obtain ⟨-, hs⟩ := Prod.mk.inj (Option.some.inj h)
    obtain ⟨vs, -, hr⟩ := map_eq_ok.1 hs
    cases hr
  · cases h

end Fields

/-! ## Records and descriptors -/

section Records

variable {m : Metadata} {ms : List Model} {r s : Model} {t u : Descriptor}

/-- What a part stands for is a part. -/
theorem mem_allParts_of_resolve? (ht : t ∈ allParts m) (hu : m.refs.resolve? t = some u) :
    u ∈ allParts m := by
  obtain ⟨_, hchain⟩ := RefTable.resolve?_eq_some_iff.1 hu
  rcases hchain.eq_or_entry with rfl | ⟨q, -, hq⟩
  · exact ht
  · exact mem_allParts_of_get? hq

theorem name?_of_modelName? {name : String} (h : modelName? u = some name)
    (hname : name ≠ uploadModel) : u.name? = some name := by
  cases u with
  | fileUpload => exact absurd (Option.some.inj h).symm hname
  | _ => exact h

theorem modelName?_of_name? {name : String} (h : u.name? = some name) :
    modelName? u = some name := by
  cases u with
  | fileUpload => cases h
  | _ => exact h

/-- A model that was made from a descriptor has its name and its shape, and is not the record of
received files. -/
theorem made_from (hc : Collected m.refs (allParts m) ms) (hr : r ∈ ms)
    (ht : r.descriptor = some t) :
    t ∈ allParts m ∧ modelOf? m.refs t = some (r.name, .ok r.shape) ∧ r.name ≠ uploadModel := by
  rcases hc.made r hr with rfl | ⟨t', ht', hdesc, hmodel⟩
  · cases ht
  · obtain rfl := Option.some.inj (ht.symm.trans hdesc)
    refine ⟨ht', hmodel, fun he => ?_⟩
    rw [hc.unique r hr upload hc.upload_mem he] at ht
    cases ht

/-- A record is not made from a sum. -/
theorem ne_sum_of_record {refs : RefTable} {x : String}
    (h : modelOf? refs u = some (x, .ok s.shape))
    (hrecord : ∃ fields, s.shape = .record fields) : ∀ name vs, u ≠ .oneOf name vs := by
  rintro name vs rfl
  obtain ⟨fields, hfields⟩ := hrecord
  obtain ⟨-, hshape⟩ := Prod.mk.inj (Option.some.inj h)
  obtain ⟨svs, -, hsum⟩ := map_eq_ok.1 hshape
  rw [hfields] at hsum
  cases hsum

/-- A record that holds another by value was made from a descriptor that holds what the other was
made from. -/
theorem holds_of_embeds (hc : Collected m.refs (allParts m) ms) (hd : DistinctRecords m)
    (h : Embeds ms r s) (hrecord : ∃ fields, s.shape = .record fields) :
    ∃ t, r.descriptor = some t ∧ ∀ u, s.descriptor = some u → Holds m.refs t u := by
  obtain ⟨hr, hs, fields, hshape, f, hf, hheld⟩ := h
  rcases hc.made r hr with rfl | ⟨t, -, ht, -⟩
  · cases hshape
  obtain ⟨hpart, hmodel, hname⟩ := made_from hc hr ht
  rw [hshape] at hmodel
  obtain ⟨ps, rfl, p, hp, hft⟩ := exists_property_of_held? hmodel hf hheld
  obtain ⟨hclose, v, hv, hn⟩ := (held?_fieldType hft).1 hheld
  refine ⟨_, ht, fun u hu => ⟨r.name, ps, rfl, hname, p, hp, hclose, ?_⟩⟩
  -- What the property stands for has the name of the other record, and so is what this was made of.
  obtain ⟨hupart, humodel, huname⟩ := made_from hc hs hu
  have hvpart : v ∈ allParts m := mem_allParts_of_resolve? (mem_allParts_of_property hpart hp) hv
  have hvname : v.name? = some s.name := name?_of_modelName? hn huname
  rw [hd u hupart (ne_sum_of_record humodel hrecord) v hvpart s.name (name?_of_modelOf? humodel)
    hvname]
  exact hv

/-- What a descriptor holds by value its record holds by value. -/
theorem embeds_of_holds (hc : Collected m.refs (allParts m) ms) (hr : r ∈ ms) (hs : s ∈ ms)
    (ht : r.descriptor = some t) (hu : s.descriptor = some u) (h : Holds m.refs t u) :
    Embeds ms r s := by
  obtain ⟨name, ps, rfl, hname, p, hp, hclose, hres⟩ := h
  obtain ⟨-, hmodel, -⟩ := made_from hc hr ht
  obtain ⟨-, hshape⟩ := Prod.mk.inj (Option.some.inj hmodel)
  obtain ⟨fields, hfields⟩ := exists_fields_of_recordShape hp hshape
  rw [hfields] at hshape
  obtain ⟨f, hf, hfield⟩ := exists_of_mem_right (fields_of_recordShape hshape).flip hp
  have huname : u.name? = some s.name := name?_of_modelOf? (made_from hc hs hu).2.1
  refine ⟨hr, hs, fields, hfields, f, hf, (held?_fieldType hfield.type).2 ⟨hclose, u, hres, ?_⟩⟩
  exact modelName?_of_name? huname

/-- A path of records is one of what they were made from. -/
theorem transGen_holds_of_embeds (hc : Collected m.refs (allParts m) ms) (hd : DistinctRecords m)
    (h : Relation.TransGen (Embeds ms) r s) (hrecord : ∃ fields, s.shape = .record fields) :
    ∃ t, r.descriptor = some t ∧
      ∀ u, s.descriptor = some u → Relation.TransGen (Holds m.refs) t u := by
  induction h with
  | single h =>
      obtain ⟨t, ht, hu⟩ := holds_of_embeds hc hd h hrecord
      exact ⟨t, ht, fun u hs => .single (hu u hs)⟩
  | tail _ h ih =>
      obtain ⟨t, ht, hmid⟩ := ih h.record
      obtain ⟨v, hv, hu⟩ := holds_of_embeds hc hd h hrecord
      exact ⟨t, ht, fun u hs => .tail (hmid v hv) (hu u hs)⟩

/-- A model with the name of a descriptor was made from one that is like it. -/
theorem exists_alike_of_name? (hc : Collected m.refs (allParts m) ms) (hd : DistinctNames m)
    (ht : t ∈ allParts m) (hr : r ∈ ms) (hname : t.name? = some r.name)
    (hne : r.name ≠ uploadModel) :
    ∃ u, r.descriptor = some u ∧ u.alike t = true := by
  rcases hc.made r hr with rfl | ⟨v, hv, hdesc, hmodel⟩
  · exact absurd rfl hne
  · exact ⟨v, hdesc, hd v hv t ht r.name (name?_of_modelOf? hmodel) hname⟩

/-- A model with the name of what is no sum was made from it. -/
theorem descriptor_of_name? (hc : Collected m.refs (allParts m) ms) (hd : DistinctRecords m)
    (ht : t ∈ allParts m) (hsum : ∀ name vs, t ≠ .oneOf name vs) (hr : r ∈ ms)
    (hname : t.name? = some r.name) (hne : r.name ≠ uploadModel) : r.descriptor = some t := by
  rcases hc.made r hr with rfl | ⟨v, hv, hdesc, hmodel⟩
  · exact absurd rfl hne
  · obtain rfl := hd t ht hsum v hv r.name hname (name?_of_modelOf? hmodel)
    exact hdesc

/-- What holds something by value has a model. -/
theorem exists_model_of_holds (hc : Collected m.refs (allParts m) ms) (hd : DistinctRecords m)
    (ht : t ∈ allParts m) (h : Holds m.refs t u) : ∃ r ∈ ms, r.descriptor = some t := by
  obtain ⟨name, ps, rfl, hname, -⟩ := h
  obtain ⟨r, hr, rfl⟩ := hc.found _ ht name _ rfl
  exact ⟨r, hr, descriptor_of_name? hc hd ht (by simp) hr rfl hname⟩

theorem mem_allParts_of_holds (ht : t ∈ allParts m) (h : Holds m.refs t u) : u ∈ allParts m := by
  obtain ⟨name, ps, rfl, -, p, hp, -, hu⟩ := h
  exact mem_allParts_of_resolve? (mem_allParts_of_property ht hp) hu

/-- A path of descriptors that goes on is one of their records. -/
theorem transGen_embeds_of_holds (hc : Collected m.refs (allParts m) ms) (hd : DistinctRecords m)
    (ht : t ∈ allParts m) (h : Relation.TransGen (Holds m.refs) t u) (hu : ∃ v, Holds m.refs u v) :
    u ∈ allParts m ∧ ∃ r ∈ ms, r.descriptor = some t ∧ ∃ s ∈ ms, s.descriptor = some u ∧
      Relation.TransGen (Embeds ms) r s := by
  induction h with
  | @single u h =>
      have hpart : u ∈ allParts m := mem_allParts_of_holds ht h
      obtain ⟨v, hv⟩ := hu
      obtain ⟨r, hr, hrt⟩ := exists_model_of_holds hc hd ht h
      obtain ⟨s, hs, hsu⟩ := exists_model_of_holds hc hd hpart hv
      exact ⟨hpart, r, hr, hrt, s, hs, hsu, .single (embeds_of_holds hc hr hs hrt hsu h)⟩
  | @tail w u _ h ih =>
      obtain ⟨hw, r, hr, hrt, s, hs, hsw, hpath⟩ := ih ⟨u, h⟩
      have hpart : u ∈ allParts m := mem_allParts_of_holds hw h
      obtain ⟨v, hv⟩ := hu
      obtain ⟨s', hs', hsu⟩ := exists_model_of_holds hc hd hpart hv
      exact ⟨hpart, r, hr, hrt, s', hs', hsu, .tail hpath (embeds_of_holds hc hs hs' hsw hsu h)⟩

/-- A record contains itself if and only if what it was made from does. -/
theorem exists_embeds_iff_holds (hc : Collected m.refs (allParts m) ms) (hd : DistinctRecords m) :
    (∃ r, Relation.TransGen (Embeds ms) r r) ↔
      ∃ t ∈ allParts m, Relation.TransGen (Holds m.refs) t t := by
  constructor
  · rintro ⟨r, h⟩
    obtain ⟨_, hfirst, -⟩ := Relation.TransGen.head'_iff.1 h
    obtain ⟨t, ht, hpath⟩ := transGen_holds_of_embeds hc hd h hfirst.record
    exact ⟨t, (made_from hc hfirst.1 ht).1, hpath t ht⟩
  · rintro ⟨t, ht, h⟩
    obtain ⟨u, hfirst, -⟩ := Relation.TransGen.head'_iff.1 h
    obtain ⟨-, r, hr, hrt, s, hs, hst, hpath⟩ := transGen_embeds_of_holds hc hd ht h ⟨u, hfirst⟩
    -- Both records were made from the same descriptor, so they have the same name.
    have hr' := (made_from hc hr hrt).2.1
    have hs' := (made_from hc hs hst).2.1
    have hname : r.name = s.name := (Prod.mk.inj (Option.some.inj (hr'.symm.trans hs'))).1
    obtain rfl := hc.unique r hr s hs hname
    exact ⟨r, hpath⟩

end Records

/-! ## Descriptors and pointers -/

section Pointers

variable {refs : RefTable} {t u v w : Descriptor} {p q : String}

theorem Writes.pointer?_eq_none (h : Writes t q) : t.pointer? = none := by
  cases h <;> rfl

theorem closesCycle_of_pointer?_eq_none (h : t.pointer? = none) : closesCycle refs t = false := by
  cases t with
  | ref p => cases h
  | _ => rfl

/-- A written pointer that is not marked is held by value, at once or through records in place. -/
theorem transGen_holds_of_writes (h : Writes t q) (hq : refs.isRecursive q = false)
    (hu : refs.resolve? (.ref q) = some u) : Relation.TransGen (Holds refs) t u := by
  induction h with
  | @field name q ps p hname hp ht =>
      refine .single ⟨name, ps, rfl, hname, p, hp, ?_, ?_⟩
      · rw [ht]
        exact hq
      · rw [ht]
        exact hu
  | @inner name q ps p hname hp ht ih =>
      have hplace : p.type.pointer? = none := ht.pointer?_eq_none
      exact .head ⟨name, ps, rfl, hname, p, hp, closesCycle_of_pointer?_eq_none hplace,
        resolve?_of_pointer?_eq_none hplace⟩ (ih hq hu)

/-- A path of pointers is one of what they stand for. -/
theorem transGen_holds_of_unboxed (h : Relation.TransGen (Unboxed refs) p q)
    (hv : refs.resolve? (.ref q) = some v) :
    ∃ u, refs.resolve? (.ref p) = some u ∧ Relation.TransGen (Holds refs) u v := by
  induction h generalizing v with
  | single h =>
      obtain ⟨u, hu, hw, hm⟩ := h
      exact ⟨u, hu, transGen_holds_of_writes hw hm hv⟩
  | tail _ h ih =>
      obtain ⟨w, hw, hwrites, hm⟩ := h
      obtain ⟨u, hu, hpath⟩ := ih hw
      exact ⟨u, hu, hpath.trans (transGen_holds_of_writes hwrites hm hv)⟩

/-- What a record holds by value stands in place, or is behind a pointer that the record writes. -/
theorem holds_cases (h : Holds refs t u) :
    (sizeOf u < sizeOf t ∧ ∀ q, Writes u q → Writes t q) ∨
      ∃ q, Writes t q ∧ refs.isRecursive q = false ∧ refs.resolve? (.ref q) = some u := by
  obtain ⟨name, ps, rfl, hname, p, hp, hclose, hu⟩ := h
  cases hpointer : p.type.pointer? with
  | some q =>
      obtain ht : p.type = .ref q := by
        cases hpt : p.type <;> rw [hpt] at hpointer <;> cases hpointer
        rfl
      rw [ht] at hclose hu
      exact Or.inr ⟨q, .field hname hp ht, hclose, hu⟩
  | none =>
      rw [resolve?_of_pointer?_eq_none hpointer] at hu
      obtain rfl := Option.some.inj hu
      refine Or.inl ⟨?_, fun q hq => .inner hname hp hq⟩
      have hlist := List.sizeOf_lt_of_mem hp
      have hproperty : sizeOf p.type < sizeOf p := by
        cases p
        simp only [PropertyOf.mk.sizeOf_spec]
        omega
      simp only [Descriptor.object.sizeOf_spec]
      omega

/-- A path from what a pointer stands for ends in what another stands for, or in a part of it that
writes nothing else. -/
theorem exists_unboxed_of_holds (h : Relation.ReflTransGen (Holds refs) u w)
    (hu : refs.resolve? (.ref p) = some u) :
    ∃ q v, Relation.ReflTransGen (Unboxed refs) p q ∧ refs.resolve? (.ref q) = some v ∧
      ∀ x, Writes w x → Writes v x := by
  induction h with
  | refl => exact ⟨p, u, .refl, hu, fun _ hx => hx⟩
  | tail _ h ih =>
      obtain ⟨q, v, hpath, hv, hwrites⟩ := ih
      rcases holds_cases h with ⟨-, hinner⟩ | ⟨x, hx, hm, hx'⟩
      · exact ⟨q, v, hpath, hv, fun y hy => hwrites y (hinner y hy)⟩
      · exact ⟨x, _, hpath.tail ⟨v, hv, hwrites x hx, hm⟩, hx', fun _ hy => hy⟩

/-- A path of descriptors goes inwards only, or passes a pointer. -/
theorem sizeOf_lt_or_exists_writes (h : Relation.TransGen (Holds refs) t u) :
    sizeOf u < sizeOf t ∨ ∃ w q v, Relation.ReflTransGen (Holds refs) t w ∧ Writes w q ∧
      refs.isRecursive q = false ∧ refs.resolve? (.ref q) = some v ∧
      Relation.ReflTransGen (Holds refs) v u := by
  induction h with
  | single h =>
      rcases holds_cases h with ⟨hlt, -⟩ | ⟨q, hw, hm, hq⟩
      · exact Or.inl hlt
      · exact Or.inr ⟨t, q, _, .refl, hw, hm, hq, .refl⟩
  | @tail b c hpath h ih =>
      rcases holds_cases h with ⟨hlt, -⟩ | ⟨q, hw, hm, hq⟩
      · rcases ih with hlt' | ⟨w, q, v, hw, hwrites, hm, hv, hrest⟩
        · exact Or.inl (by omega)
        · exact Or.inr ⟨w, q, v, hw, hwrites, hm, hv, hrest.tail h⟩
      · exact Or.inr ⟨b, q, _, hpath.to_reflTransGen, hw, hm, hq, .refl⟩

/-- On a cycle of descriptors there is one of pointers. -/
theorem exists_unboxed_cycle (h : Relation.TransGen (Holds refs) t t) :
    ∃ p, Relation.TransGen (Unboxed refs) p p := by
  rcases sizeOf_lt_or_exists_writes h with hlt | ⟨w, p, v, hw, hwrites, hm, hv, hrest⟩
  · omega
  · -- From what the pointer stands for the cycle comes back to where the pointer is written.
    obtain ⟨q, v', hpath, hv', hback⟩ := exists_unboxed_of_holds (hrest.trans hw) hv
    exact ⟨p, .tail' hpath ⟨v', hv', hback p hwrites, hm⟩⟩

end Pointers

/-! ## Metadata -/

section Metadata

variable {m : Metadata} {ms : List Model}

/-- A record contains itself if and only if a cycle of pointers is not boxed. -/
theorem exists_embeds_iff (hc : Collected m.refs (allParts m) ms) (hd : DistinctRecords m) :
    (∃ r, Relation.TransGen (Embeds ms) r r) ↔
      ∃ p, Relation.TransGen (Unboxed m.refs) p p := by
  rw [exists_embeds_iff_holds hc hd]
  constructor
  · rintro ⟨t, -, h⟩
    exact exists_unboxed_cycle h
  · rintro ⟨p, h⟩
    obtain ⟨_, ⟨u, hu, -, -⟩, -⟩ := Relation.TransGen.head'_iff.1 h
    obtain ⟨u', hu', hpath⟩ := transGen_holds_of_unboxed h hu
    obtain rfl := Option.some.inj (hu.symm.trans hu')
    obtain ⟨_, hchain⟩ := RefTable.resolve?_eq_some_iff.1 hu
    rcases hchain.eq_or_entry with rfl | ⟨q, -, hq⟩
    · cases pointer?_of_resolve? hu
    · exact ⟨u, mem_allParts_of_get? hq, hpath⟩

end Metadata

/-! ## Resolved documents -/

section Documents

open Resolve

variable {d : Document} {table : RefTable} {p q : String} {u : Descriptor}

theorem mem_pointers_of_writes (h : Writes u q) : q ∈ u.pointers := by
  induction h with
  | @field name q ps p _ hp hq =>
      rw [Descriptor.pointers_object]
      exact List.mem_flatMap.2 ⟨p, hp, by simp [hq]⟩
  | @inner name q ps p _ hp _ ih =>
      rw [Descriptor.pointers_object]
      exact List.mem_flatMap.2 ⟨p, hp, ih⟩

/-- Where no entry is another name of a marked pointer, the entry behind a pointer was not inserted
after it. -/
theorem exists_entry_of_chain (hs : Settled d table)
    (hplain : ∀ a q, table.get? a = some (.ref q) → table.isRecursive q = false)
    {t : Descriptor} {ps : List String} (h : table.Chain t ps u) (ht : t = .ref p) :
    ∃ a, table.get? a = some u ∧ table.keys.idxOf a ≤ table.keys.idxOf p := by
  induction h generalizing p with
  | here hn =>
      rw [ht] at hn
      cases hn
  | @step a v u ps hg hc ih =>
      cases ht
      cases hc with
      | here => exact ⟨a, hg, Nat.le_refl _⟩
      | @step b w u ps hg' hc' =>
          obtain ⟨c, hu, hle⟩ := ih rfl
          have hrefers : table.Refers a b := ⟨.ref b, hg, by simp⟩
          rcases hs.before_or_isRecursive hrefers with hbefore | hm
          · exact ⟨c, hu, Nat.le_trans hle (Nat.le_of_lt hbefore.2)⟩
          · rw [hplain a b hg] at hm
            cases hm

/-- There, what a record holds by value was inserted before it. -/
theorem idxOf_lt_of_unboxed (hs : Settled d table)
    (hplain : ∀ a q, table.get? a = some (.ref q) → table.isRecursive q = false)
    (h : Unboxed table p q) : table.keys.idxOf q < table.keys.idxOf p := by
  obtain ⟨u, hu, hw, hm⟩ := h
  obtain ⟨ps, hchain⟩ := RefTable.resolve?_eq_some_iff.1 hu
  obtain ⟨a, ha, hle⟩ := exists_entry_of_chain hs hplain hchain rfl
  have hrefers : table.Refers a q := ⟨u, ha, mem_pointers_of_writes hw⟩
  rcases hs.before_or_isRecursive hrefers with hbefore | hm'
  · exact Nat.lt_of_lt_of_le hbefore.2 hle
  · rw [hm] at hm'
    cases hm'

/-! ### A document with a cycle -/

/-- The record with its only field, which holds the record. -/
def nodeModel : Model where
  name := "Node"
  descriptor := some node
  shape := .record [{
    ident := "next"
    wire := "next"
    type := .optional (.model "Node")
    required := false
    format := none }]

/-- The responses of the operation. -/
def listNodesSum : Descriptor :=
  .oneOf "ListNodesResponse" [("Node", [.ref nodePointer])]

theorem allParts_loop :
    allParts loopMetadata =
      [.ref nodePointer, node, .ref linkPointer, listNodesSum, .ref nodePointer] :=
  rfl

/-- Their model. -/
def listNodesModel : Model where
  name := "ListNodesResponse"
  descriptor := some listNodesSum
  shape := .sum [{ tag := "Node", members := [("node", .model "Node")] }]

theorem models_loop : (models loopMetadata).1 = .ok [upload, nodeModel, listNodesModel] := by
  have hlink : typeOf loopProgress.table (.ref linkPointer) = .ok (.model "Node") :=
    typeOf_eq_model_iff.2 ⟨node, rfl, rfl⟩
  have hnode : typeOf loopProgress.table (.ref nodePointer) = .ok (.model "Node") :=
    typeOf_eq_model_iff.2 ⟨node, rfl, rfl⟩
  have hrecord : recordShape loopProgress.table
      [{ name := "next", type := .ref linkPointer, required := false }] = .ok nodeModel.shape := by
    unfold recordShape
    rw [List.mapM_cons, List.mapM_nil, fieldOf, fieldType, hlink]
    rfl
  have hsum : sumShape loopProgress.table [("Node", [.ref nodePointer])] =
      .ok listNodesModel.shape := by
    unfold sumShape
    rw [List.mapM_cons, List.mapM_nil, List.mapM_cons, List.mapM_nil, memberOf, hnode]
    rfl
  have hclaims : (allParts loopMetadata).forM (claimPart loopProgress.table) =
      (claim "Node" node (.ok nodeModel.shape) >>= fun _ =>
        claim "ListNodesResponse" listNodesSum (.ok listNodesModel.shape)) := by
    rw [allParts_loop]
    have hclaim : claimPart loopProgress.table node = claim "Node" node (.ok nodeModel.shape) := by
      rw [← hrecord]
      rfl
    have hclaim' : claimPart loopProgress.table listNodesSum =
        claim "ListNodesResponse" listNodesSum (.ok listNodesModel.shape) := by
      rw [← hsum]
      rfl
    have hskip : ∀ p, claimPart loopProgress.table (.ref p) = pure () := fun _ => rfl
    simp [hclaim, hclaim', hskip]
  exact models_of_claims rfl hclaims

theorem distinctNames_loop : DistinctNames loopMetadata :=
  distinctNames_of_pairwise (by decide +kernel)

/-- All models are generated, with the text of their fields.  A generated record contains itself if
and only if, in the table, there is a cycle of pointers each of which is written without a mark by
the record behind the one before.  There is none unless a schema is nothing but another name of a
marked one. -/
theorem resolve_containment {namePrefix : String} {m : Metadata} {ws : List Warning}
    {ms : List Model} (h : d.resolve namePrefix = .ok (m, ws)) (hms : (models m).1 = .ok ms)
    (hd : DistinctNames m) :
    (∀ r ∈ ms, Generated m r) ∧
      ((∃ r, Relation.TransGen (Embeds ms) r r) ↔
        ∃ p, Relation.TransGen (Unboxed m.refs) p p) ∧
      ((∀ a q, m.refs.get? a = some (.ref q) → m.refs.isRecursive q = false) →
        ¬ ∃ r, Relation.TransGen (Embeds ms) r r) := by
  have hiff := exists_embeds_iff (collected_of_models hms) (hd.records h)
  refine ⟨fun r hr => generated_of_models hms hr, hiff, fun hplain hcycle => ?_⟩
  obtain ⟨p, hp⟩ := hiff.1 hcycle
  have hs : Settled d m.refs := settled_of_resolve h
  have hlt : Relation.TransGen
      (fun a b => m.refs.keys.idxOf b < m.refs.keys.idxOf a) p p :=
    Relation.TransGen.mono (fun _ _ => idxOf_lt_of_unboxed hs hplain) _ _ hp
  exact Nat.lt_irrefl _ (RefTable.lt_of_transGen hlt)

theorem resolve_containment_loop :
    loopDocument.resolve "Api" = .ok (loopMetadata, []) ∧
      (models loopMetadata).1 = .ok [upload, nodeModel, listNodesModel] ∧
      DistinctNames loopMetadata ∧
      (∀ r ∈ [upload, nodeModel, listNodesModel], Generated loopMetadata r) ∧
      ((∃ r, Relation.TransGen (Embeds [upload, nodeModel, listNodesModel]) r r) ↔
        ∃ p, Relation.TransGen (Unboxed loopMetadata.refs) p p) := by
  obtain ⟨hgenerated, hiff, -⟩ :=
    resolve_containment resolve_loopDocument models_loop distinctNames_loop
  exact ⟨resolve_loopDocument, models_loop, distinctNames_loop, hgenerated, hiff⟩

/-- A record that refers to itself by another name is generated with a field that holds it: the mark
is on the name by which it was met first, and the field is written with the other. -/
theorem record_contains_itself :
    loopDocument.resolve "Api" = .ok (loopMetadata, []) ∧
      (models loopMetadata).1 = .ok [upload, nodeModel, listNodesModel] ∧
      DistinctNames loopMetadata ∧
      ∃ r, Relation.TransGen (Embeds [upload, nodeModel, listNodesModel]) r r := by
  refine ⟨resolve_loopDocument, models_loop, distinctNames_loop, nodeModel, .single ?_⟩
  exact ⟨by simp, by simp, _, rfl, _, List.mem_cons_self, rfl⟩

end Documents

end Emit
end ApiContract
