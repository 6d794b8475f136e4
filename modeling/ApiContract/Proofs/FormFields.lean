import ApiContract.Proofs.TypeAgreement

/-!
# The fields of forms

**Input:** the table of a resolved document and the body of a request that is sent as a form.

A handler reads such a body field by field, a scalar from the text of the field and a file, which
only a multipart form can carry, from its part.  A property stands for the one or the other, be it
behind pointers (`IsFormField`).  For a scalar the pointers are followed, for a file they are not.

**Results:**

* `fieldRead_eq_iff`: whether a field is read in the same way if its type is written in place;
* `bodyArm_form_iff`: which bodies can be read as forms, and how;
* `form_loses_file`: a file behind a pointer is not read.
-/

namespace ApiContract
namespace Emit

/-! ## What can be read -/

/-- What a field of a form holds. -/
def FieldKind.descriptor : FieldKind → Descriptor
  | .scalar q => .primitive q
  | .file => .fileUpload

/-- A property stands for a scalar or, in a multipart form, for a file. -/
def IsFormField (refs : RefTable) (media : Media) (p : Property) : Prop :=
  ∃ u, refs.resolve? p.type = some u ∧
    ((∃ q, u = .primitive q) ∨ media = .multipart ∧ u = .fileUpload)

/-- A property that stands for a file has the type of files in place. -/
def FileInPlace (refs : RefTable) (p : Property) : Prop :=
  refs.resolve? p.type = some .fileUpload → p.type = .fileUpload

/-- A field of a form is read by the wire name of a property, as what the property stands for. -/
structure ReadsProperty (refs : RefTable) (p : Property) (f : FieldRead) : Prop where
  ident : f.ident = Naming.fieldIdent p.name
  wire : f.wire = p.name
  required : f.required = p.required
  kind : refs.resolve? p.type = some f.kind.descriptor

section Fields

variable {refs : RefTable} {media : Media} {multipart : Bool} {p : Property} {u : Descriptor}
  {f : FieldRead}

theorem fieldRead_file (hfile : p.type = .fileUpload) :
    fieldRead refs multipart p =
      if multipart then
        .ok {
          ident := Naming.fieldIdent p.name
          wire := p.name
          required := p.required
          kind := .file }
      else .error (.fileOutsideMultipart p.name) := by
  rw [fieldRead, hfile]
  cases multipart <;> rfl

/-- What is no file in place is read as what it stands for, if this is a scalar. -/
theorem fieldRead_of_ne (hne : p.type ≠ .fileUpload) (hu : refs.resolve? p.type = some u) :
    fieldRead refs multipart p =
      match u.primitive? with
      | some q => .ok {
          ident := Naming.fieldIdent p.name, wire := p.name, required := p.required,
          kind := .scalar q }
      | none => .error (.fieldNotScalar p.name) := by
  have hplace : p.type.isFileUpload = false := by
    rw [← Bool.not_eq_true, Descriptor.isFileUpload_iff]
    exact hne
  rw [fieldRead, hplace]
  simp only [Bool.false_eq_true, if_false, target_eq_ok.2 hu]
  cases h : u.primitive? with
  | some q => simp [bind, Except.bind, pure, Except.pure, h]
  | none => simp [bind, Except.bind, throw, throwThe, MonadExceptOf.throw, h]

/-- A field can be read if its property stands for what a form can hold, a file in place. -/
theorem exists_fieldRead_iff (hmedia : multipart = true ↔ media = .multipart) :
    (∃ f, fieldRead refs multipart p = .ok f) ↔
      IsFormField refs media p ∧ FileInPlace refs p := by
  constructor
  · rintro ⟨f, hf⟩
    obtain ⟨-, -, -, hkind⟩ := fieldRead_eq_ok hf
    rcases hkind with ⟨-, hfile⟩ | ⟨q, -, hu⟩
    · rw [fieldRead_file hfile] at hf
      cases hm : multipart with
      | true =>
          have hu : refs.resolve? p.type = some .fileUpload := by
            rw [hfile]
            exact resolve?_of_pointer?_eq_none rfl
          exact ⟨⟨_, hu, Or.inr ⟨hmedia.1 hm, rfl⟩⟩, fun _ => hfile⟩
      | false =>
          rw [hm] at hf
          cases hf
    · refine ⟨⟨_, hu, Or.inl ⟨q, rfl⟩⟩, fun hfile => ?_⟩
      rw [hu] at hfile
      cases hfile
  · rintro ⟨⟨u, hu, ⟨q, rfl⟩ | ⟨hm, rfl⟩⟩, hplace⟩
    · have hne : p.type ≠ .fileUpload := by
        intro hfile
        rw [hfile, resolve?_of_pointer?_eq_none rfl] at hu
        cases hu
      exact ⟨_, fieldRead_of_ne hne hu⟩
    · have hread : fieldRead refs multipart p = _ := fieldRead_file (hplace hu)
      rw [if_pos (hmedia.2 hm)] at hread
      exact ⟨_, hread⟩

theorem readsProperty_of_fieldRead (h : fieldRead refs multipart p = .ok f) :
    ReadsProperty refs p f := by
  obtain ⟨hident, hwire, hrequired, hkind⟩ := fieldRead_eq_ok h
  refine ⟨hident, hwire, hrequired, ?_⟩
  rcases hkind with ⟨hf, hfile⟩ | ⟨q, hf, hu⟩
  · rw [hf, hfile]
    exact resolve?_of_pointer?_eq_none rfl
  · rw [hf]
    exact hu

/-- Writing the type of a property in place changes nothing, unless it stands for a file behind a
pointer. -/
theorem fieldRead_eq_iff (hu : refs.resolve? p.type = some u) :
    fieldRead refs multipart p = fieldRead refs multipart { p with type := u } ↔
      FileInPlace refs p := by
  by_cases hfile : u = .fileUpload
  · subst hfile
    rw [fieldRead_file (p := { p with type := .fileUpload }) rfl]
    constructor
    · intro heq _
      by_contra hne
      rw [fieldRead_of_ne hne hu] at heq
      cases multipart <;> cases heq
    · intro hplace
      rw [fieldRead_file (hplace hu)]
  · have hplace : FileInPlace refs p := fun h => absurd (Option.some.inj (hu.symm.trans h)) hfile
    have hne : p.type ≠ .fileUpload := by
      intro hp
      rw [hp, resolve?_of_pointer?_eq_none rfl] at hu
      exact hfile (Option.some.inj hu).symm
    have hu' : refs.resolve? u = some u := resolve?_of_pointer?_eq_none (pointer?_of_resolve? hu)
    rw [fieldRead_of_ne hne hu, fieldRead_of_ne (p := { p with type := u }) hfile hu']
    exact ⟨fun _ => hplace, fun _ => rfl⟩

end Fields

/-! ## Forms -/

/-- A body stands for a record with a name, at least one property, and properties that stand for
what a form can hold. -/
def IsForm (refs : RefTable) (media : Media) (t : Descriptor) : Prop :=
  ∃ name ps, refs.resolve? t = some (.object (some name) ps) ∧ ps ≠ [] ∧
    ∀ p ∈ ps, IsFormField refs media p

section Forms

variable {refs : RefTable} {multipart : Bool} {media : Media} {t : Descriptor} {a : BodyArm}

theorem formRecord_eq_ok_iff {name : String} {ps : List Property} :
    formRecord refs t = .ok (name, ps) ↔
      refs.resolve? t = some (.object (some name) ps) ∧ ps ≠ [] := by
  constructor
  · intro h
    obtain ⟨u, hu, h⟩ := bind_eq_ok.1 h
    split at h
    · obtain ⟨rfl, rfl⟩ := Prod.mk.inj (Except.ok.inj h)
      exact ⟨target_eq_ok.1 hu, List.cons_ne_nil _ _⟩
    · cases h
  · rintro ⟨hu, hne⟩
    obtain ⟨p, ps', rfl⟩ := List.exists_cons_of_ne_nil hne
    exact bind_eq_ok.2 ⟨_, target_eq_ok.2 hu, rfl⟩

theorem exists_formRead_iff (hmedia : multipart = true ↔ media = .multipart) :
    (∃ f, formRead refs multipart t = .ok f) ↔
      ∃ name ps, refs.resolve? t = some (.object (some name) ps) ∧ ps ≠ [] ∧
        ∀ p ∈ ps, IsFormField refs media p ∧ FileInPlace refs p := by
  simp only [← exists_fieldRead_iff hmedia, ← exists_mapM_iff]
  constructor
  · rintro ⟨f, hf⟩
    obtain ⟨⟨name, ps⟩, hrecord, h⟩ := bind_eq_ok.1 hf
    obtain ⟨hu, hne⟩ := formRecord_eq_ok_iff.1 hrecord
    obtain ⟨fields, hfields, -⟩ := bind_eq_ok.1 h
    exact ⟨name, ps, hu, hne, fields, hfields⟩
  · rintro ⟨name, ps, hu, hne, fields, hfields⟩
    exact ⟨_, bind_eq_ok.2 ⟨_, formRecord_eq_ok_iff.2 ⟨hu, hne⟩,
      bind_eq_ok.2 ⟨fields, hfields, rfl⟩⟩⟩

/-- A body that is sent as a form is read as one. -/
theorem bodyArm_eq_ok_iff (hmedia : media = .form ∨ media = .multipart) :
    bodyArm refs media t = .ok a ↔
      ∃ f, formRead refs (media == .multipart) t = .ok f ∧ a.media = media ∧
        a.member = memberIdent t ∧
        a.read = if media = .multipart then .multipart f else .form f := by
  obtain ⟨media', member, read⟩ := a
  rcases hmedia with rfl | rfl
  all_goals
    unfold bodyArm
    constructor
    · intro h
      obtain ⟨_, hread, h⟩ := bind_eq_ok.1 h
      obtain ⟨f, hf, rfl⟩ := map_eq_ok.1 hread
      obtain ⟨rfl, rfl, rfl⟩ := BodyArm.mk.inj (Except.ok.inj h)
      exact ⟨f, hf, rfl, rfl, rfl⟩
    · rintro ⟨f, hf, rfl, rfl, rfl⟩
      exact bind_eq_ok.2 ⟨_, map_eq_ok.2 ⟨f, hf, rfl⟩, rfl⟩

/-- A body can be read as a form if and only if it stands for a record with a name, at least one
property, and properties that stand for scalars or, in a multipart form, for files, where the type
of a file is no pointer.  Every property is then read by its wire name as what it stands for.  Where
no property is a pointer to a file, this is all that is asked; and a property is read as if its type
were written in place if and only if it is no pointer to a file. -/
theorem bodyArm_form_iff (hmedia : media = .form ∨ media = .multipart) :
    ((∃ a, bodyArm refs media t = .ok a) ↔
        ∃ name ps, refs.resolve? t = some (.object (some name) ps) ∧ ps ≠ [] ∧
          ∀ p ∈ ps, IsFormField refs media p ∧ FileInPlace refs p) ∧
      (∀ a, bodyArm refs media t = .ok a →
        ∃ f ps, a.read.form? = some f ∧ refs.resolve? t = some (.object (some f.record) ps) ∧
          List.Forall₂ (ReadsProperty refs) ps f.fields) ∧
      ((∀ name ps, refs.resolve? t = some (.object (some name) ps) → ∀ p ∈ ps, FileInPlace refs p) →
        ((∃ a, bodyArm refs media t = .ok a) ↔ IsForm refs media t)) ∧
      ∀ p u, refs.resolve? p.type = some u →
        (fieldRead refs (media == .multipart) p =
            fieldRead refs (media == .multipart) { p with type := u } ↔
          FileInPlace refs p) := by
  have hiff : (∃ a, bodyArm refs media t = .ok a) ↔
      ∃ name ps, refs.resolve? t = some (.object (some name) ps) ∧ ps ≠ [] ∧
        ∀ p ∈ ps, IsFormField refs media p ∧ FileInPlace refs p := by
    have hm : (media == .multipart) = true ↔ media = .multipart := beq_iff_eq
    rw [← exists_formRead_iff hm]
    constructor
    · rintro ⟨a, ha⟩
      obtain ⟨f, hf, -⟩ := (bodyArm_eq_ok_iff hmedia).1 ha
      exact ⟨f, hf⟩
    · rintro ⟨f, hf⟩
      exact ⟨⟨_, _, _⟩, (bodyArm_eq_ok_iff hmedia).2 ⟨f, hf, rfl, rfl, rfl⟩⟩
  refine ⟨hiff, fun a ha => ?_, fun hplace => ?_, fun p u hu => fieldRead_eq_iff hu⟩
  · obtain ⟨f, hf, -, -, hread⟩ := (bodyArm_eq_ok_iff hmedia).1 ha
    obtain ⟨ps, -, hu, hfields⟩ := formRead_eq_ok hf
    refine ⟨f, ps, ?_, hu, hfields.imp fun _ _ => readsProperty_of_fieldRead⟩
    rw [hread]
    split <;> rfl
  · rw [hiff]
    constructor
    · rintro ⟨name, ps, hu, hne, hps⟩
      exact ⟨name, ps, hu, hne, fun p hp => (hps p hp).1⟩
    · rintro ⟨name, ps, hu, hne, hps⟩
      exact ⟨name, ps, hu, hne, fun p hp => ⟨hps p hp, hplace name ps hu p hp⟩⟩

theorem bodyArm_form_iff_report :
    (∃ a, bodyArm Resolve.reportMetadata.refs .multipart (.ref Resolve.reportPointer) = .ok a) ∧
      ¬ ∃ a, bodyArm Resolve.reportMetadata.refs .form (.ref Resolve.reportPointer) = .ok a := by
  have hrecord : Resolve.reportMetadata.refs.resolve? (.ref Resolve.reportPointer) =
      some Resolve.report := rfl
  constructor
  · refine (bodyArm_form_iff (Or.inr rfl)).1.2 ⟨_, _, hrecord, List.cons_ne_nil _ _, fun p hp => ?_⟩
    rcases List.mem_pair.1 hp with rfl | rfl
    · exact ⟨⟨.primitive .string, rfl, Or.inl ⟨.string, rfl⟩⟩, nofun⟩
    · exact ⟨⟨.fileUpload, rfl, Or.inr ⟨rfl, rfl⟩⟩, fun _ => rfl⟩
  · rw [(bodyArm_form_iff (Or.inl rfl)).1]
    rintro ⟨name, ps, hu, -, hps⟩
    obtain ⟨-, rfl⟩ := Descriptor.object.inj (Option.some.inj (hrecord.symm.trans hu))
    obtain ⟨⟨u, hu, ⟨q, rfl⟩ | ⟨hmedia, -⟩⟩, -⟩ := hps _ (List.mem_cons_of_mem _ List.mem_cons_self)
    · cases hu
    · cases hmedia

end Forms

end Emit

/-! ## A file that is not read -/

namespace Resolve

section Photos

abbrev photoPointer : String :=
  "#/components/schemas/Photo"

/-- A pointer to a file. -/
abbrev imagePointer : String :=
  "#/components/schemas/Image"

/-- An operation with a form that has a file. -/
def addPhoto : Document.Operation where
  operationId := some "addPhoto"
  requestBody := some {
    required := true
    content := [("multipart/form-data", { schema := some { ref := some photoPointer } })] }
  responses := [("204", emptyResponse)]

def photoDocument : Document where
  paths := [("/photos", { post := some addPhoto })]
  components := {
    schemas := [
      ("Photo", {
        type := some "object"
        properties := [("image", { ref := some imagePointer })]
        required := ["image"] }),
      ("Image", { type := some "string", format := some "binary" })] }

def photo : Descriptor :=
  .object (some "Photo") [{ name := "image", type := .ref imagePointer, required := true }]

def photoBody : RequestBody where
  className := "AddPhotoRequest"
  required := true
  content := [(.multipart, .ref photoPointer)]

def photoOperation : Operation where
  path := "/photos"
  method := .post
  operationId := "addPhoto"
  summary := none
  params := []
  requestBody := some photoBody
  responseBody := {
    className := "AddPhotoResponse"
    variants := [(.code 204, { name := "NoContent", headers := none, payload := .none })] }

def photoProgress : Progress where
  table := (RefTable.empty.insert imagePointer .fileUpload).insert photoPointer photo
  entered := [photoPointer, imagePointer]

def photoMetadata : Metadata where
  namePrefix := "Api"
  operations := [photoOperation]
  refs := photoProgress.table

theorem run_reference_photo :
    (reference photoDocument [] photoPointer).run {} = .ok (.ref photoPointer, photoProgress) := by
  have himage : (reference photoDocument [photoPointer] imagePointer).run
      { entered := [photoPointer] } = .ok (.ref imagePointer, {
        table := RefTable.empty.insert imagePointer .fileUpload
        entered := [photoPointer, imagePointer] }) := by
    refine (run_reference_eq_ok (by decide) (by decide)).2 ⟨rfl, _, "Image", .fileUpload,
      { entered := [photoPointer, imagePointer] }, rfl, rfl, ?_, rfl⟩
    exact run_named_scalar (by decide) (by decide) (by decide) rfl
  refine (run_reference_eq_ok (by decide) (by decide)).2 ⟨rfl, _, "Photo", photo, {
    table := RefTable.empty.insert imagePointer .fileUpload
    entered := [photoPointer, imagePointer] }, rfl, rfl, ?_, rfl⟩
  refine run_named_record (by decide) (by decide) (by decide) ?_
  exact run_propertiesOf_cons (run_typeOf_ref rfl himage) run_propertiesOf_nil

theorem resolve_photoDocument : photoDocument.resolve "Api" = .ok (photoMetadata, []) := by
  have hes : operationsOf photoDocument =
      [("/photos", .post, { post := some addPhoto }, addPhoto)] := rfl
  have hbody : (requestBody photoDocument "addPhoto" addPhoto).run {} =
      .ok (some photoBody, photoProgress) :=
    run_requestBody_of "AddPhoto" rfl (run_requestContents_cons rfl rfl run_reference_photo rfl) rfl
      rfl
  have hrun : (endpoint photoDocument
      ("/photos", .post, { post := some addPhoto }, addPhoto)).run {} =
      .ok (photoOperation, photoProgress) :=
    run_operation_of rfl rfl rfl rfl rfl rfl hbody rfl
  exact resolve_of_operation hes rfl hrun

/-- A form with a file whose schema has a name is resolved, but no handler can read it. -/
theorem form_loses_file :
    photoDocument.resolve "Api" = .ok (photoMetadata, []) ∧
      photoOperation ∈ photoMetadata.operations ∧ photoOperation.requestBody = some photoBody ∧
      (.multipart, .ref photoPointer) ∈ photoBody.content ∧
      Emit.IsForm photoMetadata.refs .multipart (.ref photoPointer) ∧
      Emit.bodyArm photoMetadata.refs .multipart (.ref photoPointer) =
        .error (.fieldNotScalar "image") := by
  refine ⟨resolve_photoDocument, List.mem_singleton.2 rfl, rfl, List.mem_singleton.2 rfl, ?_, rfl⟩
  refine ⟨"Photo", _, rfl, List.cons_ne_nil _ _, fun p hp => ?_⟩
  rw [List.mem_singleton.1 hp]
  exact ⟨.fileUpload, rfl, Or.inr ⟨rfl, rfl⟩⟩

end Photos

end Resolve
end ApiContract
