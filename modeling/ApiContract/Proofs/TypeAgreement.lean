import ApiContract.Proofs.ReadTypes
import ApiContract.Proofs.RequestDispatch

/-!
# Declared types and types that are read

**Input:** a resolved document from which everything can be generated, in which a type name belongs
to one descriptor.

What a parameter, a header or a field of a form holds is declared in one place of the generated
code, by the contract or by the model of a record, and read in another, by a handler or a client
method.

**Results:**

* `fieldType_scalar`: a property that stands for a scalar, be it behind pointers, is declared with
  this scalar, since none of these pointers is marked;
* `formAgrees_of_bodyArm`, `headersAgree_of_decodeArm`: the fields of a form, and those of a record
  of headers, are declared with the types with which they are read;
* `types_agree`: what is declared has the type of what is read.
-/

namespace ApiContract
namespace Emit

open Code (flat word braces parens commas)

/-! ## Types of fields -/

section Fields

variable {d : Document} {refs : RefTable} {p : Property} {q : Primitive} {multipart : Bool}
  {g : FieldRead}

/-- A property that stands for a scalar has its type: no pointer before a scalar is marked. -/
theorem fieldType_scalar (hs : Resolve.Settled d refs)
    (ht : refs.resolve? p.type = some (.primitive q)) :
    fieldType refs p = .ok (optionalUnless p.required (.scalar q)) := by
  have hcycle : closesCycle refs p.type = false := by
    cases hp : p.type with
    | ref pointer =>
        rw [hp] at ht
        exact hs.isRecursive_eq_false ht (by simp)
    | _ => rfl
  refine bind_eq_ok.2 ⟨_, typeOf_eq_scalar ht, ?_⟩
  rw [hcycle]
  rfl

theorem fieldType_file (ht : p.type = .fileUpload) :
    fieldType refs p = .ok (optionalUnless p.required (.model uploadModel)) := by
  have htype : typeOf refs .fileUpload = .ok (.model uploadModel) :=
    typeOf_eq_model_iff.2 ⟨.fileUpload, resolve?_of_pointer?_eq_none rfl, rfl⟩
  unfold fieldType
  rw [ht]
  exact bind_eq_ok.2 ⟨_, htype, rfl⟩

/-- What can be read from a form is a file, or stands for a scalar. -/
theorem fieldRead_eq_ok (h : fieldRead refs multipart p = .ok g) :
    g.ident = Naming.fieldIdent p.name ∧ g.wire = p.name ∧ g.required = p.required ∧
      (g.kind = .file ∧ p.type = .fileUpload ∨
        ∃ q, g.kind = .scalar q ∧ refs.resolve? p.type = some (.primitive q)) := by
  unfold fieldRead at h
  dsimp only at h
  split at h
  · rename_i hfile
    split at h
    · obtain rfl := Except.ok.inj h
      exact ⟨rfl, rfl, rfl, Or.inl ⟨rfl, Descriptor.isFileUpload_iff.1 hfile⟩⟩
    · cases h
  · obtain ⟨u, hu, h⟩ := bind_eq_ok.1 h
    split at h
    · rename_i q hq
      obtain rfl := Except.ok.inj h
      obtain rfl := Descriptor.primitive?_eq_some_iff.1 hq
      exact ⟨rfl, rfl, rfl, Or.inr ⟨q, rfl, target_eq_ok.1 hu⟩⟩
    · cases h

/-- A field that can be read from a form is declared with the type of what it holds. -/
theorem fieldType_of_fieldRead (hs : Resolve.Settled d refs)
    (h : fieldRead refs multipart p = .ok g) :
    fieldType refs p = .ok (optionalUnless g.required g.kind.type) := by
  obtain ⟨-, -, hrequired, hkind⟩ := fieldRead_eq_ok h
  rw [hrequired]
  rcases hkind with ⟨hfile, ht⟩ | ⟨q, hscalar, ht⟩
  · rw [hfile]
    exact fieldType_file ht
  · rw [hscalar]
    exact fieldType_scalar hs ht

end Fields

/-! ## Records -/

/-- No two descriptors that code is generated from have the same type name, and none has that of the
record of received files. -/
def SingleClaims (m : Metadata) : Prop :=
  DistinctNames m ∧ ∀ t ∈ allParts m, t.name? ≠ some uploadModel

/-- A record with properties has a model with their fields, if its name is its own. -/
theorem exists_recordModel {d : Document} {namePrefix : String} {m : Metadata} {ws : List Warning}
    {ms : List Model} {name : String} {ps : List Property}
    (h : d.resolve namePrefix = .ok (m, ws)) (hc : Collected m.refs (allParts m) ms)
    (hm : SingleClaims m) (ht : .object (some name) ps ∈ allParts m) (hne : ps ≠ []) :
    ∃ r ∈ ms, r.name = name ∧ ∃ fields, r.shape = .record fields ∧
      List.Forall₂ (IsField m.refs) ps fields := by
  obtain ⟨r, hr, rfl⟩ := hc.found _ ht name _ rfl
  have hname : r.name ≠ uploadModel := fun he => hm.2 _ ht (congrArg some he)
  have hdescriptor := descriptor_of_name? hc (hm.1.records h) ht (by simp) hr rfl hname
  obtain ⟨-, hmodel, -⟩ := made_from hc hr hdescriptor
  obtain ⟨-, hshape⟩ := Prod.mk.inj (Option.some.inj hmodel)
  obtain ⟨p, hp⟩ := List.exists_mem_of_ne_nil ps hne
  obtain ⟨fields, hfields⟩ := exists_fields_of_recordShape hp hshape
  rw [hfields] at hshape
  exact ⟨r, hr, rfl, fields, hfields, fields_of_recordShape hshape⟩

/-! ## Parameters -/

/-- An argument of the contract method and of the client method is declared with the type with which
a handler reads a parameter. -/
structure ParamAgrees (contract client handler : Code) (a : ContractParam) (r : ParamRead) :
    Prop where
  wire : a.wire = some r.wire
  declared : ∃ type, TypeText .sibling a.type type ∧
    word a.ident ++ flat ":" ++ type <:+: contract ∧ word a.ident ++ flat ":" ++ type <:+: client
  typed : ∃ e, bindingCode r.binding e <:+: handler ∧ Reads e a.type

/-! ## Headers -/

/-- A field of a record of headers is declared with the type with which a client reads a header. -/
structure HeaderAgrees (model client : Code) (f : Field) (h : HeaderRead) : Prop where
  ident : f.ident = h.field
  wire : f.wire = h.wire
  declared : ∃ text, FieldText f text ∧ text <:+: model
  typed : ∃ e, word h.field ++ flat ":" ++ e ++ flat "," <:+: client ∧ Reads e f.type

/-- The headers of a response are declared with the types with which they are read. -/
def HeadersAgree (m : Metadata) (ms : List Model) (code : Code) (v : Variant) (b : DecodeArm) :
    Prop :=
  (v.headers = none ∧ b.headers = none) ∨
    ∃ name ps binding hs r s fields,
      v.headers = some (.object (some name) ps) ∧ b.headers = some (binding, .model name, hs) ∧
      List.Forall₂ (fun p (h : HeaderRead) => h.wire = p.name) ps hs ∧
      r ∈ ms ∧ r.name = name ∧ ModuleOf m r s ∧ r.shape = .record fields ∧
      ModelText name (.record fields) s.code ∧ List.Forall₂ (HeaderAgrees s.code code) fields hs

section Headers

variable {d : Document} {namePrefix : String} {m : Metadata} {ws : List Warning} {ms : List Model}
  {v : Variant} {b : DecodeArm}

theorem headerRead_eq_ok {p : Property} {h : HeaderRead} (hr : headerRead p = .ok h) :
    h.field = Naming.fieldIdent p.name ∧ h.wire = p.name ∧ h.required = p.required ∧
      p.type = .primitive h.scalar := by
  unfold headerRead at hr
  split at hr
  · rename_i q hq
    obtain rfl := Except.ok.inj hr
    exact ⟨rfl, rfl, rfl, Descriptor.primitive?_eq_some_iff.1 hq⟩
  · cases hr

theorem headerAgrees_of_headerRead (hs : Resolve.Settled d m.refs) {p : Property} {f : Field}
    {h : HeaderRead} (hf : IsField m.refs p f) (hr : headerRead p = .ok h)
    {model client text : Code}
    (htext : FieldText f text) (hmodel : text <:+: model) (hclient : h.code <:+: client) :
    HeaderAgrees model client f h := by
  obtain ⟨hfield, hwire, hrequired, ht⟩ := headerRead_eq_ok hr
  have hres : m.refs.resolve? p.type = some (.primitive h.scalar) := by
    rw [ht]
    exact resolve?_of_pointer?_eq_none rfl
  have htype : f.type = optionalUnless h.required (.scalar h.scalar) := by
    rw [hrequired]
    exact Except.ok.inj (hf.type.symm.trans (fieldType_scalar hs hres))
  refine ⟨hf.ident.trans hfield.symm, hf.wire.trans hwire.symm, ⟨text, htext, hmodel⟩, ?_⟩
  obtain ⟨e, hcode, hreads⟩ := h.exists_reads
  rw [htype]
  exact ⟨e, hcode ▸ hclient, hreads⟩

theorem DecodeArm.infix_of_header {e : String × CodeType × List HeaderRead} {h : HeaderRead}
    (hb : b.headers = some e) (hh : h ∈ e.2.2) (className : String) :
    h.code <:+: b.bodyCode className := by
  obtain ⟨binding, type, hs⟩ := e
  have hall := (infix_flatMap (f := fun h : HeaderRead => h.code) hh).trans (Code.infix_braces _)
  unfold DecodeArm.bodyCode
  rw [hb]
  -- The headers come first, the last thing but one of their statement.
  iterate 7 apply List.infix_append_of_infix_left
  exact List.infix_append_of_infix_left (List.infix_append_of_infix_right hall)

/-- Headers are declared with the types with which a client method reads them. -/
theorem headersAgree_of_decodeArm {st : Status} {code : Code} {className : String}
    (h : d.resolve namePrefix = .ok (m, ws)) (hms : (models m).1 = .ok ms) (hm : SingleClaims m)
    (hv : v.headers = none ∨ ∃ name ps, v.headers = some (.object (some name) ps) ∧ ps ≠ [])
    (hparts : ∀ u, v.headers = some u → u ∈ allParts m) (hb : decodeArm m.refs st v = .ok b)
    (hcode : b.bodyCode className <:+: code) : HeadersAgree m ms code v b := by
  obtain ⟨-, -, -, hheaders, -⟩ := decodeArm_eq_ok hb
  unfold headersRead at hheaders
  rcases hv with hnone | ⟨name, ps, hsome, hne⟩
  · rw [hnone] at hheaders
    exact Or.inl ⟨hnone, (Except.ok.inj hheaders).symm⟩
  · rw [hsome] at hheaders
    obtain ⟨type, htype, hheaders⟩ := bind_eq_ok.1 hheaders
    obtain ⟨ps', hps, hheaders⟩ := bind_eq_ok.1 hheaders
    obtain rfl := Except.ok.inj hps
    obtain ⟨hs', hreads, hheaders⟩ := bind_eq_ok.1 hheaders
    obtain rfl : type = .model name := by
      have hmodel : typeOf m.refs (.object (some name) ps) = .ok (.model name) :=
        typeOf_eq_model_iff.2 ⟨_, resolve?_of_pointer?_eq_none rfl, rfl⟩
      exact Except.ok.inj (htype.symm.trans hmodel)
    obtain ⟨r, hr, hname, fields, hshape, hfields⟩ :=
      exists_recordModel h (collected_of_models hms) hm (hparts _ hsome) hne
    obtain ⟨s, hs, htext⟩ := generated_of_models hms hr
    rw [hname, hshape] at htext
    have hbheaders := (Except.ok.inj hheaders).symm
    refine Or.inr ⟨name, ps, _, hs', r, s, fields, hsome, hbheaders, ?_, hr, hname, hs,
      hshape, htext, ?_⟩
    · exact (mapM_eq_ok.1 hreads).imp fun _ _ h => (headerRead_eq_ok h).2.1
    · have hcommon : List.Forall₂ (fun f g => ∃ p, IsField m.refs p f ∧ headerRead p = .ok g)
          fields hs' :=
        forall₂_of_common hfields (mapM_eq_ok.1 hreads) fun p f g hf hg => ⟨p, hf, hg⟩
      refine forall₂_imp_mem hcommon fun f g hf hg hfg => ?_
      obtain ⟨p, hfield, hread⟩ := hfg
      obtain ⟨text, hfieldtext, hpart⟩ := htext.field hf
      exact headerAgrees_of_headerRead (Resolve.settled_of_resolve h) hfield hread hfieldtext hpart
        ((DecodeArm.infix_of_header hbheaders hg className).trans hcode)

end Headers

/-! ## Forms -/

/-- A field of a record is declared with the type with which it is read from a form. -/
structure FieldAgrees (model handler : Code) (f : Field) (g : FieldRead) : Prop where
  ident : f.ident = g.ident
  wire : f.wire = g.wire
  declared : ∃ text, FieldText f text ∧ text <:+: model
  typed : ∃ e, bindingCode g.binding e <:+: handler ∧ Reads e f.type

/-- The fields of a form are declared with the types with which they are read. -/
structure FormAgrees (m : Metadata) (ms : List Model) (code : Code) (t : Descriptor)
    (g : FormRead) : Prop where
  record : ∃ ps, m.refs.resolve? t = some (.object (some g.record) ps) ∧
    List.Forall₂ (fun p (f : FieldRead) => f.wire = p.name) ps g.fields
  model : ∃ r ∈ ms, r.name = g.record ∧ ∃ s fields, ModuleOf m r s ∧ r.shape = .record fields ∧
    ModelText g.record (.record fields) s.code ∧
      List.Forall₂ (FieldAgrees s.code code) fields g.fields
  /-- The record is made of what was read. -/
  built : flat "models::" ++ word g.record ++
    braces (commas (g.fields.map fun f => word f.ident ++ flat ":" ++ word f.binding)) <:+: code

section Forms

variable {d : Document} {namePrefix : String} {m : Metadata} {ws : List Warning} {ms : List Model}
  {refs : RefTable} {media : Media} {t : Descriptor} {a : BodyArm} {g : FormRead}
  {multipart : Bool}

theorem formRead_eq_ok (h : formRead refs multipart t = .ok g) :
    ∃ ps, ps ≠ [] ∧ refs.resolve? t = some (.object (some g.record) ps) ∧
      List.Forall₂ (fun p f => fieldRead refs multipart p = .ok f) ps g.fields := by
  obtain ⟨⟨record, ps⟩, hrecord, h⟩ := bind_eq_ok.1 h
  obtain ⟨fields, hfields, h⟩ := bind_eq_ok.1 h
  obtain rfl := Except.ok.inj h
  obtain ⟨u, hu, hrecord⟩ := bind_eq_ok.1 hrecord
  split at hrecord
  · obtain ⟨rfl, rfl⟩ := Prod.mk.inj (Except.ok.inj hrecord)
    exact ⟨_, List.cons_ne_nil _ _, target_eq_ok.1 hu, mapM_eq_ok.1 hfields⟩
  · cases hrecord

/-- A body that is no JSON and no XML is read as a form. -/
theorem exists_form_of_bodyArm (h : bodyArm refs media t = .ok a)
    (hm : media = .form ∨ media = .multipart) :
    ∃ multipart g, a.read.form? = some g ∧ formRead refs multipart t = .ok g := by
  unfold bodyArm at h
  rcases hm with rfl | rfl
  all_goals
    obtain ⟨read, hread, h⟩ := bind_eq_ok.1 h
    obtain ⟨g, hg, rfl⟩ := map_eq_ok.1 hread
    obtain rfl := Except.ok.inj h
    exact ⟨_, g, rfl, hg⟩

/-- What is read as a form is no JSON and no XML. -/
theorem media_of_form (h : bodyArm refs media t = .ok a) (hg : a.read.form? = some g) :
    media = .form ∨ media = .multipart := by
  cases media with
  | json =>
      obtain rfl := Except.ok.inj h
      cases hg
  | xml =>
      obtain rfl := Except.ok.inj h
      cases hg
  | form => exact Or.inl rfl
  | multipart => exact Or.inr rfl

theorem formRead_of_bodyArm (h : bodyArm refs media t = .ok a) (hg : a.read.form? = some g) :
    ∃ multipart, formRead refs multipart t = .ok g := by
  obtain ⟨multipart, g', hg', hread⟩ := exists_form_of_bodyArm h (media_of_form h hg)
  obtain rfl := Option.some.inj (hg'.symm.trans hg)
  exact ⟨multipart, hread⟩

theorem BodyArm.decodeCode_infix (a : BodyArm) {className : String} {required : Bool} :
    a.decodeCode className <:+: a.code className required := by
  unfold BodyArm.code
  cases required with
  | true => exact List.infix_append _ _ _
  | false =>
      have hsome : a.decodeCode className <:+: flat "Some" ++ parens (a.decodeCode className) :=
        (Code.infix_parens _).trans (List.suffix_append _ _).isInfix
      exact hsome.trans (List.infix_append _ _ _)

theorem BodyArm.form_infix (h : a.read.form? = some g) (className : String) (required : Bool) :
    g.code a.read.source <:+: a.code className required := by
  have hattempt : ∀ body after : Code, body <:+: flat "::bindery::valid_body(async" ++
      braces (body ++ after) ++ flat ".await)?" := by
    intro body after
    have hbody := (List.prefix_append body after).isInfix.trans (Code.infix_braces (body ++ after))
    exact hbody.trans (List.infix_append _ _ _)
  suffices hdecode : g.code a.read.source <:+: a.decodeCode className from
    hdecode.trans a.decodeCode_infix
  obtain ⟨media, member, read⟩ := a
  cases read with
  | json => cases h
  | xml => cases h
  | form g' =>
      obtain rfl := Option.some.inj h
      exact hattempt _ _
  | multipart g' =>
      obtain rfl := Option.some.inj h
      exact hattempt _ _

/-- All fields of a form are read, the files last. -/
theorem FormRead.mem_reads {f : FieldRead} (hf : f ∈ g.fields) : f ∈ g.reads := by
  cases hfile : f.isFile with
  | true => exact List.mem_append_right _ (List.mem_filter.2 ⟨hf, hfile⟩)
  | false => exact List.mem_append_left _ (List.mem_filter.2 ⟨hf, by simp [hfile]⟩)

theorem FormRead.infix_of_mem {f : FieldRead} (hf : f ∈ g.fields) (source : String) :
    f.code <:+: g.code source := by
  have hread := infix_flatMap (f := fun f : FieldRead => f.code) (mem_reads hf)
  unfold FormRead.code
  iterate 4 apply List.infix_append_of_infix_left
  exact List.infix_append_of_infix_right hread

theorem FormRead.built_infix (g : FormRead) (source : String) :
    modelPath .sibling g.record ++
        braces (commas (g.fields.map fun f => word f.ident ++ flat ":" ++ word f.binding)) <:+:
      g.code source :=
  ⟨flat "let form = ::bindery::" ++ flat source ++ flat "(request).await?;" ++
    g.reads.flatMap (·.code) ++ flat "let record =", flat ";", by
      unfold FormRead.code
      simp only [List.append_assoc]⟩

theorem fieldAgrees_of_fieldRead (hs : Resolve.Settled d m.refs) {p : Property} {f : Field}
    {r : FieldRead} (hf : IsField m.refs p f) (hr : fieldRead m.refs multipart p = .ok r)
    {model handler text : Code} (htext : FieldText f text) (hmodel : text <:+: model)
    (hhandler : r.code <:+: handler) : FieldAgrees model handler f r := by
  obtain ⟨hident, hwire, -, -⟩ := fieldRead_eq_ok hr
  have htype : f.type = optionalUnless r.required r.kind.type :=
    Except.ok.inj (hf.type.symm.trans (fieldType_of_fieldRead hs hr))
  refine ⟨hf.ident.trans hident.symm, hf.wire.trans hwire.symm, ⟨text, htext, hmodel⟩, ?_⟩
  obtain ⟨e, hcode, hreads⟩ := r.exists_reads
  rw [htype]
  exact ⟨e, hcode ▸ hhandler, hreads⟩

/-- The fields of a form are declared with the types with which a handler reads them. -/
theorem formAgrees_of_bodyArm (h : d.resolve namePrefix = .ok (m, ws)) (hms : (models m).1 = .ok ms)
    (hm : SingleClaims m) (ht : t ∈ allParts m)
    (ha : bodyArm m.refs media t = .ok a) (hmedia : media = .form ∨ media = .multipart)
    {code : Code} {className : String} {required : Bool}
    (hcode : a.code className required <:+: code) :
    ∃ g, a.read.form? = some g ∧ FormAgrees m ms code t g := by
  obtain ⟨multipart, g, hg, hread⟩ := exists_form_of_bodyArm ha hmedia
  obtain ⟨ps, hne, hres, hps⟩ := formRead_eq_ok hread
  obtain ⟨r, hr, hname, fields, hshape, hfields⟩ :=
    exists_recordModel h (collected_of_models hms) hm (mem_allParts_of_resolve? ht hres) hne
  obtain ⟨s, hs, htext⟩ := generated_of_models hms hr
  rw [hname, hshape] at htext
  have hform : g.code a.read.source <:+: code :=
    (BodyArm.form_infix hg className required).trans hcode
  have hcommon : List.Forall₂ (fun f r => ∃ p, IsField m.refs p f ∧
      fieldRead m.refs multipart p = .ok r) fields g.fields :=
    forall₂_of_common hfields hps fun p f r hf hr => ⟨p, hf, hr⟩
  have hagree : List.Forall₂ (FieldAgrees s.code code) fields g.fields := by
    refine forall₂_imp_mem hcommon fun f r hf hr hfr => ?_
    obtain ⟨p, hfield, hread⟩ := hfr
    obtain ⟨text, hfieldtext, hpart⟩ := htext.field hf
    exact fieldAgrees_of_fieldRead (Resolve.settled_of_resolve h) hfield hread hfieldtext hpart
      ((FormRead.infix_of_mem hr _).trans hform)
  exact ⟨g, hg, {
    record := ⟨ps, hres, hps.imp fun _ _ hf => (fieldRead_eq_ok hf).2.1⟩
    model := ⟨r, hr, hname, s, fields, hs, hshape, htext, hagree⟩
    built := (g.built_infix _).trans hform }⟩

end Forms

/-! ## Operations -/

/-- What the contract and the models declare for an operation has the types of what is read by its
handler and its client method. -/
structure TypesAgree (m : Metadata) (ms : List Model) (o : Operation) (c : ContractMethod)
    (k : Handler) (cl : ClientMethod) : Prop where
  /-- A handler reads what the contract method takes, and a client method takes the same. -/
  params : cl.params = c.params ∧
    ∃ args, c.params = args ++ (o.requestBody.map bodyArgument).toList ∧
      List.Forall₂ (fun p (a : ContractParam) => a.wire = some p.name) o.params args ∧
      List.Forall₂ (ParamAgrees c.code cl.code (k.code (contractName m))) args k.reads
  headers : List.Forall₂ (fun e b => HeadersAgree m ms cl.code e.2 b) o.responseBody.variants
    cl.arms
  forms : ∀ b, o.requestBody = some b → ∃ kb, k.body = some kb ∧
    List.Forall₂ (fun e a => a.media = e.1 ∧ (e.1 = .form ∨ e.1 = .multipart →
      ∃ g, a.read.form? = some g ∧ FormAgrees m ms (k.code (contractName m)) e.2 g))
      b.content kb.arms

section Operations

open Resolve (headers_of_responseBody nodup_names_of_responseBody variants_of_responseBody)

variable {d : Document} {m : Metadata} {ms : List Model} {o : Operation} {c : ContractMethod}
  {k : Handler} {cl : ClientMethod} {cs : List ContractParam}

theorem infix_paramsCode {ps : List ContractParam} {a : ContractParam} (ha : a ∈ ps) :
    a.code <:+: paramsCode ps := by
  unfold paramsCode
  apply List.infix_append_of_infix_left
  exact List.infix_append_of_infix_right (Code.infix_commas (List.mem_map_of_mem ha))

theorem BodyDispatch.arm_infix {b : BodyDispatch} {a : BodyArm} (ha : a ∈ b.arms) :
    a.code b.className b.required <:+: b.code := by
  have harm := (infix_flatMap (f := fun a : BodyArm => a.code b.className b.required) ha)
  unfold BodyDispatch.code
  apply List.infix_append_of_infix_left
  apply List.infix_append_of_infix_right
  refine List.IsInfix.trans ?_ (Code.infix_braces _)
  apply List.infix_append_of_infix_left
  exact List.infix_append_of_infix_left harm

/-- What an arm of a client method reads is part of the code of the method. -/
theorem SameVariants.bodyCode_infix (h : SameVariants m.refs o k cl) {b : DecodeArm}
    (hb : b ∈ cl.arms) : b.bodyCode cl.response <:+: cl.code := by
  suffices harms : b.bodyCode cl.response <:+: cl.armsCode from harms.trans cl.armsCode_infix
  cases hs : b.status with
  | some n =>
      obtain ⟨text, -, hcode⟩ := cl.armsCode_eq
      have harm : ClientMethod.fixedCode cl.response b <:+: cl.arms.flatMap _ := infix_flatMap hb
      rw [ClientMethod.fixedCode_of_some hs] at harm
      rw [hcode]
      refine List.infix_append_of_infix_left (List.IsInfix.trans ?_ harm)
      apply List.infix_append_of_infix_right
      exact List.infix_append_of_infix_right (Code.infix_braces _)
  | none =>
      unfold ClientMethod.armsCode
      refine List.infix_append_of_infix_right ?_
      rw [h.defaultArm?_eq hb hs]
      exact List.infix_append_of_infix_right (Code.infix_braces _)

/-- An argument stands in the code of the contract method. -/
theorem ContractMethod.argument_infix {c : ContractMethod} {a : ContractParam} (ha : a ∈ c.params) :
    a.code <:+: c.code := by
  unfold ContractMethod.code
  iterate 3 apply List.infix_append_of_infix_left
  exact List.infix_append_of_infix_right (infix_paramsCode ha)

/-- It stands in that of the client method as well. -/
theorem ClientMethod.argument_infix {k : ClientMethod} {a : ContractParam} (ha : a ∈ k.params) :
    a.code <:+: k.code := by
  unfold ClientMethod.code
  iterate 4 apply List.infix_append_of_infix_left
  exact List.infix_append_of_infix_right (infix_paramsCode ha)

/-- An argument that a parameter is read for is declared with the type with which it is read. -/
theorem paramAgrees_of_feeds (hcl : cl.params = c.params) {a : ContractParam} {r : ParamRead}
    (ha : a ∈ c.params) (hr : r ∈ k.reads) (h : Feeds a (.param r)) (contract : String) :
    ParamAgrees c.code cl.code (k.code contract) a r := by
  obtain ⟨hwire, htype⟩ := h
  have hinput : Input.param r ∈ k.inputs :=
    List.mem_append_left _ (List.mem_map.2 ⟨r, hr, rfl⟩)
  have hread : r.code <:+: k.code contract := Handler.infix_of_mem_inputs hinput _
  obtain ⟨e, hcode, hreads⟩ := r.exists_reads
  rw [← htype] at hreads
  exact {
    wire := hwire
    declared := ⟨a.type.code .sibling, a.type.text .sibling, ContractMethod.argument_infix ha,
      ClientMethod.argument_infix (hcl ▸ ha)⟩
    typed := ⟨e, hcode ▸ hread, hreads⟩ }

theorem params_agree (hc : contractMethod o = .ok c) (hk : HandlerOf m.refs o c.params k)
    (hcl : cl.params = c.params) :
    ∃ args, c.params = args ++ (o.requestBody.map bodyArgument).toList ∧
      List.Forall₂ (fun p (a : ContractParam) => a.wire = some p.name) o.params args ∧
      List.Forall₂ (ParamAgrees c.code cl.code (k.code (contractName m))) args k.reads := by
  obtain ⟨args, hargs, hps, -⟩ := contractParams_eq_ok (params_of_contractMethod hc)
  refine ⟨args, hargs, hps.imp fun p a ha => ?_, ?_⟩
  · obtain ⟨q, -, rfl⟩ := ha
    rfl
  · have hfeeds : List.Forall₂ (fun a r => Feeds a (.param r)) args k.reads :=
      forall₂_of_common hps hk.reads fun _ _ _ ha hr => feeds_param ha hr
    refine forall₂_imp_mem hfeeds fun a r ha hr h => paramAgrees_of_feeds hcl ?_ hr h _
    rw [hargs]
    exact List.mem_append_left _ ha

/-- In a resolved document, in which every type name belongs to one descriptor, the contract and the
models declare for parameters, headers and fields of forms the types of what handlers and client
methods read for them. -/
theorem types_agree {namePrefix : String} {ws : List Warning} {r s t : SourceModule}
    (h : d.resolve namePrefix = .ok (m, ws)) (hms : (models m).1 = .ok ms) (hm : SingleClaims m)
    (hr : contractModule m = .ok r) (hs : controllerModule m = .ok s) (ht : clientModule m = .ok t)
    (ho : o ∈ m.operations) :
    ∃ c k cl, contractMethod o = .ok c ∧ c.code <:+: r.code ∧
      handler m.refs o = .ok k ∧ k.code (contractName m) <:+: s.code ∧
      clientMethod m.refs o = .ok cl ∧ cl.code <:+: t.code ∧ TypesAgree m ms o c k cl := by
  obtain ⟨_, _, _, hbody⟩ := Resolve.exists_run_responseBody h ho
  have hnames := nodup_names_of_responseBody hbody
  obtain ⟨c, hc, hccode⟩ := exists_contractMethod hr ho
  have hcs := params_of_contractMethod hc
  obtain ⟨k, hk, hkcode⟩ := exists_handler hs ho
  obtain ⟨cs, hcs', hkof⟩ := handler_eq_ok hk
  obtain rfl := Except.ok.inj (hcs'.symm.trans hcs)
  obtain ⟨cl, hcl, hclcode⟩ := exists_clientMethod ht ho
  obtain ⟨cs, hcs'', hclof⟩ := clientMethod_eq_ok hcl
  obtain rfl := Except.ok.inj (hcs''.symm.trans hcs)
  have hsame : SameVariants m.refs o k cl :=
    ⟨(variants_of_responseBody hbody).1, hkof.arms, hclof.arms⟩
  refine ⟨c, k, cl, hc, hccode, hk, hkcode, hcl, hclcode, {
    params := ⟨hclof.params, params_agree hc hkof hclof.params⟩
    headers := ?_
    forms := fun b hb => ?_ }⟩
  · refine forall₂_imp_mem hclof.arms fun e b he hb hdecode => ?_
    refine headersAgree_of_decodeArm h hms hm (headers_of_responseBody hbody he) (fun _ hu => ?_)
      hdecode (hsame.bodyCode_infix hb)
    exact mem_allParts_of_variant ho hnames he (by simp [Variant.members, hu])
  · have hdispatch := hkof.body
    rw [hb] at hdispatch
    obtain ⟨kb, hkb, hkbody⟩ := exists_of_rel_some hdispatch
    have hinput : Input.body kb ∈ k.inputs := by
      refine List.mem_append_right _ (List.mem_map.2 ⟨kb, ?_, rfl⟩)
      rw [hkbody]
      exact List.mem_singleton.2 rfl
    have hkbcode : kb.code <:+: k.code (contractName m) := Handler.infix_of_mem_inputs hinput _
    refine ⟨kb, hkbody, forall₂_imp_mem (bodyDispatch_eq_ok hkb).2.2 fun e a he ha harm => ?_⟩
    refine ⟨(bodyArm_eq_ok harm).1, fun hmedia => ?_⟩
    exact formAgrees_of_bodyArm h hms hm (mem_allParts_of_content ho hb he) harm hmedia
      ((BodyDispatch.arm_infix ha).trans hkbcode)

end Operations

section Reports

open Resolve (reportDocument reportMetadata reportOperation reportWarnings resolve_reportDocument)

theorem singleClaims_reports : SingleClaims reportMetadata :=
  ⟨distinctNames_of_pairwise (by decide +kernel), by decide +kernel⟩

theorem types_agree_reports :
    reportDocument.resolve "Api" = .ok (reportMetadata, reportWarnings) ∧
      (models reportMetadata).1 = .ok reportModels ∧ SingleClaims reportMetadata ∧
      ∃ r s t, contractModule reportMetadata = .ok r ∧ controllerModule reportMetadata = .ok s ∧
        clientModule reportMetadata = .ok t ∧ reportOperation ∈ reportMetadata.operations ∧
        ∃ c k cl, contractMethod reportOperation = .ok c ∧ c.code <:+: r.code ∧
          handler reportMetadata.refs reportOperation = .ok k ∧
          k.code (contractName reportMetadata) <:+: s.code ∧
          clientMethod reportMetadata.refs reportOperation = .ok cl ∧ cl.code <:+: t.code ∧
          TypesAgree reportMetadata reportModels reportOperation c k cl := by
  obtain ⟨r, hr⟩ := exists_contractModule_reports
  obtain ⟨s, hs⟩ := exists_controllerModule_reports
  obtain ⟨t, ht⟩ := exists_clientModule_reports
  have ho : reportOperation ∈ reportMetadata.operations := List.mem_cons_self
  exact ⟨resolve_reportDocument, models_reports, singleClaims_reports, r, s, t, hr, hs, ht, ho,
    types_agree resolve_reportDocument models_reports singleClaims_reports hr hs ht ho⟩

end Reports

end Emit
end ApiContract
