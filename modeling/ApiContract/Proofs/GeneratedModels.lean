import ApiContract.Proofs.ClientPaths
import ApiContract.Proofs.TypeAgreement

/-!
# The models that are generated

**Input:** metadata from which everything can be generated, in which no two responses of an
operation have variants of the same name, as in resolved documents.

Models are made of what is gone through, each of the first descriptor with its name
(`Collected`).  Generated code names a model where something of what is gone through has its name.

**Results:**

* `forall_models_of_typeWithin`: what all names of a descriptor and of the table have is had by the
  models of its type;
* `models_of_typeOf`: the type of a part is made of models that are generated;
* `models_of_shape`: so is the model of a part;
* `shapeOf_of_modelOf?`: a model has fields for properties, and variants for variants (`ShapeOf`);
* `models_exist`: every path in generated code that leads to a model leads to one that is generated,
  and every model is generated once, from the first descriptor with its name.
-/

namespace ApiContract
namespace Emit

open Code (Fits Mentions flat pathWords word)

/-! ## Names -/

section Names

variable {m : Metadata} {ms : List Model} {t u : Descriptor} {x : String}

/-- Everything in a descriptor that has a name has one with a property. -/
def AllNames (p : String → Prop) (t : Descriptor) : Prop :=
  ∀ u ∈ t.parts, ∀ x, u.name? = some x → p x

/-- Everything in a descriptor that has a name has a model. -/
def Covered (ms : List Model) (t : Descriptor) : Prop :=
  ∀ u ∈ t.parts, ∀ x, u.name? = some x → x ∈ ms.map (·.name)

section Types

variable {p : String → Prop} {refs : RefTable} {type : CodeType}

/-- A list without a name adds none. -/
theorem allNames_list {e : Descriptor} (he : AllNames p e) : AllNames p (.array none e) := by
  intro u hu x hx
  rw [Descriptor.parts] at hu
  rcases List.mem_cons.1 hu with rfl | hu
  · cases hx
  · exact he u hu x hx

variable (hupload : p uploadModel) (hrefs : ∀ q u, refs.get? q = some u → AllNames p u)

include hrefs

/-- What is behind a pointer is in the table. -/
theorem allNames_of_resolve? (ht : AllNames p t) (hu : refs.resolve? t = some u) :
    AllNames p u := by
  obtain ⟨_, hchain⟩ := RefTable.resolve?_eq_some_iff.1 hu
  rcases hchain.eq_or_entry with rfl | ⟨q, -, hq⟩
  · exact ht
  · exact hrefs q u hq

include hupload

/-- What all names of a descriptor and of the table have is had by the models of its type. -/
theorem forall_models_of_typeWithin {hops : Nat} (ht : AllNames p t)
    (h : typeWithin refs hops t = .ok type) : ∀ x ∈ type.models, p x := by
  have hname : ∀ {u : Descriptor} {name : String}, AllNames p u → u.name? = some name →
      ∀ x ∈ (CodeType.model name).models, p x := by
    intro u name hu hn x hx
    rw [List.mem_singleton.1 hx]
    exact hu u u.mem_parts_self name hn
  fun_induction typeWithin refs hops t generalizing type with
  | case1 hops q =>
      obtain rfl := Except.ok.inj h
      exact fun x hx => nomatch hx
  | case2 hops =>
      obtain rfl := Except.ok.inj h
      intro x hx
      rwa [List.mem_singleton.1 hx]
  | case3 hops =>
      obtain rfl := Except.ok.inj h
      exact fun x hx => nomatch hx
  | case4 hops name e =>
      obtain rfl := Except.ok.inj h
      exact hname ht rfl
  | case5 hops name ps =>
      obtain rfl := Except.ok.inj h
      exact hname ht rfl
  | case6 hops name vs =>
      obtain rfl := Except.ok.inj h
      exact hname ht rfl
  | case7 hops e ih =>
      obtain ⟨inner, hinner, rfl⟩ := map_eq_ok.1 h
      have hmodels := ih (fun u hu => ht u (Descriptor.mem_parts_array hu)) hinner
      exact hmodels
  | case8 hops ps hps =>
      obtain rfl := Except.ok.inj h
      exact fun x hx => nomatch hx
  | case9 => cases h
  | case10 => cases h
  | case11 hops q u hu ih => exact ih (allNames_of_resolve? hrefs ht (target_eq_ok.1 hu)) h
  | case12 => cases h

theorem forall_models_of_fieldType {q : Property} (hq : AllNames p q.type)
    (h : fieldType refs q = .ok type) : ∀ x ∈ type.models, p x := by
  obtain ⟨inner, hinner, h⟩ := bind_eq_ok.1 h
  have hmodels := forall_models_of_typeWithin hupload hrefs hq hinner
  obtain rfl := Except.ok.inj h
  cases closesCycle refs q.type <;> cases q.required <;> exact hmodels

end Types

variable (hc : Collected m.refs (allParts m) ms)

include hc

theorem Collected.mem_names (ht : t ∈ allParts m) (hx : t.name? = some x) :
    x ∈ ms.map (·.name) := by
  obtain ⟨shape, hs⟩ := exists_modelOf? m.refs hx
  obtain ⟨r, hr, rfl⟩ := hc.found t ht x shape hs
  exact List.mem_map.2 ⟨r, hr, rfl⟩

theorem Collected.upload_mem_names : uploadModel ∈ ms.map (·.name) :=
  List.mem_map.2 ⟨upload, hc.upload_mem, rfl⟩

theorem Collected.covered (ht : t ∈ allParts m) : Covered ms t :=
  fun _ hu _ hx => hc.mem_names (mem_allParts_of_mem_parts ht hu) hx

theorem Collected.covered_of_get? (q : String) (u : Descriptor) (hq : m.refs.get? q = some u) :
    Covered ms u :=
  hc.covered (mem_allParts_of_get? hq)

/-- The type of a part is made of models that are generated. -/
theorem models_of_typeOf {type : CodeType} (ht : t ∈ allParts m) (h : typeOf m.refs t = .ok type) :
    ∀ x ∈ type.models, x ∈ ms.map (·.name) :=
  forall_models_of_typeWithin hc.upload_mem_names hc.covered_of_get? (hc.covered ht) h

theorem models_of_fieldType {p : Property} {type : CodeType} (hp : Covered ms p.type)
    (h : fieldType m.refs p = .ok type) : ∀ x ∈ type.models, x ∈ ms.map (·.name) :=
  forall_models_of_fieldType hc.upload_mem_names hc.covered_of_get? hp h

theorem models_of_recordShape {ps : List Property} {shape : ModelShape}
    (hps : ∀ p ∈ ps, Covered ms p.type) (h : recordShape m.refs ps = .ok shape) :
    ∀ x ∈ shape.models, x ∈ ms.map (·.name) := by
  unfold recordShape at h
  split at h
  · obtain rfl := Except.ok.inj h
    exact fun x hx => nomatch hx
  · obtain ⟨fields, hfields, rfl⟩ := map_eq_ok.1 h
    intro x hx
    obtain ⟨f, hf, hx⟩ := List.mem_flatMap.1 hx
    obtain ⟨p, hp, hfield⟩ := exists_of_mem_right (mapM_eq_ok.1 hfields) hf
    exact models_of_fieldType hc (hps p hp) (fieldOf_eq_ok hfield).type x hx

/-- The model of a part is made of models that are generated. -/
theorem models_of_shape {name : String} {shape : ModelShape} (ht : t ∈ allParts m)
    (h : modelOf? m.refs t = some (name, .ok shape)) : ∀ x ∈ shape.models, x ∈ ms.map (·.name) := by
  unfold modelOf? at h
  split at h
  · rename_i n e
    obtain ⟨-, hs⟩ := Prod.mk.inj (Option.some.inj h)
    refine models_of_recordShape hc (fun p hp => ?_) hs
    rw [List.mem_singleton.1 hp]
    have he := mem_allParts_of_mem_parts ht (Descriptor.mem_parts_array e.mem_parts_self)
    exact allNames_list (hc.covered he)
  · obtain ⟨-, hs⟩ := Prod.mk.inj (Option.some.inj h)
    exact models_of_recordShape hc (fun p hp => hc.covered (mem_allParts_of_property ht hp)) hs
  · obtain ⟨-, hs⟩ := Prod.mk.inj (Option.some.inj h)
    obtain ⟨svs, rfl, hsvs⟩ := sumShape_eq_ok hs
    intro x hx
    obtain ⟨sv, hsv, hx⟩ := List.mem_flatMap.1 hx
    obtain ⟨e, he, hx⟩ := List.mem_flatMap.1 hx
    obtain ⟨v, hv, -, hmembers⟩ := exists_of_mem_right hsvs hsv
    obtain ⟨u, hu, -, htype⟩ := exists_of_mem_right hmembers he
    exact models_of_typeOf hc (mem_allParts_of_member ht hv hu) htype x hx
  · cases h

end Names

/-! ## Operations -/

section Operations

variable {m : Metadata} {ms : List Model} {o : Operation} {b : RequestBody}
  (hc : Collected m.refs (allParts m) ms) (ho : o ∈ m.operations)

include hc ho

theorem response_mem_names : o.responseBody.className ∈ ms.map (·.name) :=
  hc.mem_names (mem_allParts_of_mem_sumsOf ho List.mem_cons_self) rfl

theorem request_mem_names (hb : o.requestBody = some b) : b.className ∈ ms.map (·.name) :=
  hc.mem_names (mem_allParts_of_requestBody ho hb) rfl

/-- Arguments are scalars, but for the request body. -/
theorem models_of_contractParams {cs : List ContractParam} (h : contractParams o = .ok cs) :
    ∀ p ∈ cs, ∀ x ∈ p.type.models, x ∈ ms.map (·.name) := by
  obtain ⟨ps, rfl, hps, -⟩ := contractParams_eq_ok h
  intro p hp x hx
  rcases List.mem_append.1 hp with hp | hp
  · obtain ⟨q, -, scalar, -, rfl⟩ := exists_of_mem_right hps hp
    cases hreq : q.required <;> simp [paramArgument, optionalUnless, hreq, CodeType.models] at hx
  · obtain ⟨b, hb, rfl⟩ := Option.map_eq_some_iff.1 (Option.mem_toList.1 hp)
    have hbody : x = b.className := by
      cases hreq : b.required <;>
        simpa [bodyArgument, optionalUnless, hreq, CodeType.models] using hx
    rw [hbody]
    exact request_mem_names hc ho hb

/-- A form is read into the model of what it stands for. -/
theorem record_mem_names (hb : o.requestBody = some b) {k : BodyDispatch}
    (h : bodyDispatch m.refs b = .ok k) {a : BodyArm} (ha : a ∈ k.arms) {g : FormRead}
    (hg : a.read.form? = some g) : g.record ∈ ms.map (·.name) := by
  obtain ⟨-, -, harms⟩ := bodyDispatch_eq_ok h
  obtain ⟨e, he, harm⟩ := exists_of_mem_right harms ha
  obtain ⟨multipart, hform⟩ := formRead_of_bodyArm harm hg
  obtain ⟨ps, -, hu, -⟩ := formRead_eq_ok hform
  exact hc.mem_names (mem_allParts_of_resolve? (mem_allParts_of_content ho hb he) hu) rfl

/-- A response is read with the types of what it carries. -/
theorem models_of_decodeArm (hn : (o.responseBody.variants.map fun e => e.2.name).Nodup)
    {e : Status × Variant} (he : e ∈ o.responseBody.variants) {b : DecodeArm}
    (h : decodeArm m.refs e.1 e.2 = .ok b) :
    ∀ f ∈ b.members, ∀ x ∈ f.2.models, x ∈ ms.map (·.name) := by
  intro f hf
  obtain ⟨u, hu, -, htype⟩ := exists_of_mem_right (types_of_decodeArm h) hf
  rcases htype with ⟨-, hfile⟩ | htype
  · rw [hfile]
    exact fun x hx => nomatch hx
  · exact models_of_typeOf hc (mem_allParts_of_variant ho hn he hu) htype

end Operations

/-! ## Shapes -/

/-- The shape that a descriptor with a name gets: fields for properties, variants for variants.  A
named list has one field, which is called by its name. -/
inductive ShapeOf (refs : RefTable) : Descriptor → ModelShape → Prop
  | openRecord {name : String} : ShapeOf refs (.object (some name) []) .openRecord
  | record {name : String} {p : Property} {ps : List Property} {fields : List Field}
      (h : List.Forall₂ (IsField refs) (p :: ps) fields) :
      ShapeOf refs (.object (some name) (p :: ps)) (.record fields)
  | list {name : String} {e : Descriptor} {f : Field}
      (h : IsField refs
        { name := Naming.decapitalize name, type := .array none e, required := true } f) :
      ShapeOf refs (.array (some name) e) (.record [f])
  | sum {name : String} {vs : List (String × List Descriptor)} {svs : List SumVariant}
      (h : List.Forall₂ (fun v sv =>
        sv.tag = v.1 ∧ List.Forall₂ (IsMember refs) v.2 sv.members) vs svs) :
      ShapeOf refs (.oneOf name vs) (.sum svs)

theorem shapeOf_of_modelOf? {refs : RefTable} {u : Descriptor} {name : String} {shape : ModelShape}
    (h : modelOf? refs u = some (name, .ok shape)) : ShapeOf refs u shape := by
  unfold modelOf? at h
  split at h
  · rename_i n e
    obtain ⟨-, hshape⟩ := Prod.mk.inj (Option.some.inj h)
    obtain ⟨fields, rfl⟩ := exists_fields_of_recordShape List.mem_cons_self hshape
    cases fields_of_recordShape hshape with
    | cons hf hrest =>
        cases hrest
        exact .list hf
  · rename_i n ps
    obtain ⟨-, hshape⟩ := Prod.mk.inj (Option.some.inj h)
    cases ps with
    | nil =>
        rw [← Except.ok.inj hshape]
        exact .openRecord
    | cons p ps =>
        obtain ⟨fields, rfl⟩ := exists_fields_of_recordShape List.mem_cons_self hshape
        exact .record (fields_of_recordShape hshape)
  · obtain ⟨-, hshape⟩ := Prod.mk.inj (Option.some.inj h)
    obtain ⟨svs, rfl, hsvs⟩ := sumShape_eq_ok hshape
    exact .sum hsvs
  · cases h

/-! ## Generated code -/

section Generated

variable {m : Metadata} {ms : List Model} {r s t : SourceModule}

/-- The paths of generated code lead to models that are generated, each of them once. -/
structure ModelsExist (m : Metadata) (ms : List Model) (top : SourceModule)
    (mods : List SourceModule) (r s t : SourceModule) : Prop where
  /-- Every model has a module of its own with its text, and the module above them exports it. -/
  modules : (modelModules m).1 = .ok (top :: mods)
  text : List.Forall₂ (fun a s => s.place = ["models", Naming.fieldIdent a.name] ∧
    ModelText a.name a.shape s.code) ms mods
  exported : top.place = ["models"] ∧
    Pieces (fun a c => c = flat "pub use self::" ++ word (Naming.fieldIdent a.name) ++
      (flat "::" ++ word a.name ++ flat ";")) ms top.code
  /-- The types that these modules declare are the models, each of them once. -/
  declared : mods.flatMap (declaredTypes ·.code) = ms.map (·.name)
  nodup : (ms.map (·.name)).Nodup
  /-- Contract, controller and client name models in the module that they import; the only other
  module beside them that they name is that of the contract. -/
  siblings : ∀ c ∈ [r, s, t], (∀ x, Mentions "models" c.code x → x ∈ ms.map (·.name)) ∧
    ∃ rest, c.code = modelsImport m ++ rest ∧ ∀ x, Mentions "super" rest x → x = "server"
  /-- Models name each other. -/
  models : ∀ c ∈ mods, ∀ x, (Mentions "super" c.code x → x ∈ ms.map (·.name)) ∧
    ¬ Mentions "models" c.code x
  /-- A model has the shape of the first descriptor with its name; the record of received files
  comes before all others. -/
  first : ∀ a ∈ ms, ∃ u, (.fileUpload :: allParts m).find? (modelName? · == some a.name) = some u ∧
    (u = .fileUpload ∧ a.name = "FileUpload" ∧ a.shape = .upload ∨
      a.descriptor = some u ∧ ShapeOf m.refs u a.shape)
  /-- Every descriptor with a name has a model. -/
  found : ∀ u ∈ allParts m, ∀ x, u.name? = some x → x ∈ ms.map (·.name)

theorem exists_first (hc : Collected m.refs (allParts m) ms) {a : Model} (ha : a ∈ ms) :
    ∃ u, (.fileUpload :: allParts m).find? (modelName? · == some a.name) = some u ∧
      (u = .fileUpload ∧ a.name = "FileUpload" ∧ a.shape = .upload ∨
        a.descriptor = some u ∧ ShapeOf m.refs u a.shape) := by
  rcases hc.first a ha with rfl | ⟨u, hu, hdescriptor, hmade⟩
  · exact ⟨.fileUpload, rfl, Or.inl ⟨rfl, rfl, rfl⟩⟩
  · by_cases hname : a.name = uploadModel
    · obtain rfl := hc.unique a ha upload hc.upload_mem hname
      exact ⟨.fileUpload, rfl, Or.inl ⟨rfl, rfl, rfl⟩⟩
    · have hsame : ∀ v : Descriptor, (modelName? v == some a.name) = (v.name? == some a.name) := by
        intro v
        rw [Bool.eq_iff_iff, beq_iff_eq, beq_iff_eq]
        exact ⟨fun h => name?_of_modelName? h hname, modelName?_of_name?⟩
      have hskip : (modelName? .fileUpload == some a.name) = false := by
        rw [beq_eq_false_iff_ne]
        exact fun he => hname (Option.some.inj he).symm
      refine ⟨u, ?_, Or.inr ⟨hdescriptor, shapeOf_of_modelOf? hmade⟩⟩
      rw [List.find?_cons, hskip]
      simpa only [hsame] using hu

theorem fits_siblings {w : String} {allowed : String → Prop} (hw : w ∈ pathWords)
    (hc : Collected m.refs (allParts m) ms)
    (hn : ∀ o ∈ m.operations, (o.responseBody.variants.map fun e => e.2.name).Nodup)
    (hr : contractModule m = .ok r) (hs : controllerModule m = .ok s) (ht : clientModule m = .ok t)
    (hserver : w = "super" → allowed "server")
    (hnames : w = "models" → ∀ x ∈ ms.map (·.name), allowed x) :
    ∀ c ∈ [r, s, t], ∃ rest, c.code = modelsImport m ++ rest ∧ Fits w allowed true rest true := by
  have hresponse : ∀ o ∈ m.operations, w = "models" → allowed o.responseBody.className :=
    fun o ho hword => hnames hword _ (response_mem_names hc ho)
  have hparams : ∀ o ∈ m.operations, ∀ cs, contractParams o = .ok cs →
      ∀ p ∈ cs, ∀ x ∈ p.type.models, w = "models" → allowed x :=
    fun o ho cs hcs p hp x hx hword =>
      hnames hword x (models_of_contractParams hc ho hcs p hp x hx)
  have hupload : w = "models" → allowed uploadModel :=
    fun hword => hnames hword _ hc.upload_mem_names
  simp only [List.mem_cons, List.not_mem_nil, or_false, forall_eq_or_imp, forall_eq]
  refine ⟨fits_contractModule hw hr fun o ho c hok => ?_,
    fits_controllerModule hw hs hserver (fun o ho k hok => ?_) hupload,
    fits_clientModule hw ht fun o ho k hok => ?_⟩
  · obtain ⟨cs, hcs, hok⟩ := bind_eq_ok.1 hok
    obtain rfl := Except.ok.inj hok
    exact ⟨hresponse o ho, hparams o ho cs hcs⟩
  · obtain ⟨_, -, hk⟩ := handler_eq_ok hok
    rw [hk.response]
    refine ⟨hresponse o ho, fun d hd => ?_⟩
    have hbody := hk.body
    rw [hd] at hbody
    obtain ⟨b, hb, hdispatch⟩ := exists_of_rel_some_right hbody
    rw [(bodyDispatch_eq_ok hdispatch).1]
    exact ⟨fun hword => hnames hword _ (request_mem_names hc ho hb), fun a ha g hg hword =>
      hnames hword _ (record_mem_names hc ho hb hdispatch ha hg)⟩
  · obtain ⟨cs, hcs, hk⟩ := clientMethod_eq_ok hok
    rw [hk.response, hk.params]
    refine ⟨hresponse o ho, hparams o ho cs hcs, fun d hd hword => ?_,
      fun a ha f hf x hx hword => ?_⟩
    · have hbody := hk.body
      rw [hd] at hbody
      obtain ⟨b, hb, hencode⟩ := exists_of_rel_some_right hbody
      rw [(bodyEncode_eq_ok hencode).1]
      exact hnames hword _ (request_mem_names hc ho hb)
    · obtain ⟨e, he, harm⟩ := exists_of_mem_right hk.arms ha
      exact hnames hword x (models_of_decodeArm hc ho (hn o ho) he harm f hf x hx)

/-- The models that a model names are those of its shape. -/
theorem mentions_model (hc : Collected m.refs (allParts m) ms) {a : Model} (ha : a ∈ ms)
    (x : String) :
    (Mentions "super" a.code x → x ∈ ms.map (·.name)) ∧ ¬ Mentions "models" a.code x := by
  have hmodels : ∀ x ∈ a.shape.models, x ∈ ms.map (·.name) := by
    rcases hc.made a ha with rfl | ⟨u, hu, -, hmade⟩
    · exact fun x hx => nomatch hx
    · exact models_of_shape hc hu hmade
  constructor
  · have hfits : Fits "super" (· ∈ ms.map (·.name)) true a.code true :=
      a.fits (by decide) fun x hx _ => hmodels x hx
    exact hfits.allowed_of_mentions
  · have hfits : Fits "models" (fun _ => False) true a.code true :=
      a.fits (by decide) fun x _ h => absurd h (by decide)
    exact hfits.allowed_of_mentions

/-- Every model has a module with its text. -/
theorem texts_of_models (ms : List Model) :
    List.Forall₂ (fun a s => s.place = ["models", Naming.fieldIdent a.name] ∧
      ModelText a.name a.shape s.code) ms (ms.map (·.sourceModule)) := by
  rw [List.forall₂_map_right_iff, List.forall₂_same]
  exact fun a _ => ⟨rfl, a.text⟩

/-- The modules of models declare the models. -/
theorem declaredTypes_modules (ms : List Model) :
    (ms.map (·.sourceModule)).flatMap (declaredTypes ·.code) = ms.map (·.name) := by
  rw [List.flatMap_map, List.map_eq_flatMap]
  exact congrArg (ms.flatMap ·) (funext fun a => a.text.declaredTypes_eq)

/-- If code is generated, from a document or from metadata in which the variants of every response
body have different names, then every model that it names is generated, once, from the first
descriptor with its name. -/
theorem models_exist
    (hm : (∃ d namePrefix ws, Document.resolve d namePrefix = .ok (m, ws)) ∨
      ∀ o ∈ m.operations, (o.responseBody.variants.map fun e => e.2.name).Nodup)
    (hms : (models m).1 = .ok ms) (hr : contractModule m = .ok r) (hs : controllerModule m = .ok s)
    (ht : clientModule m = .ok t) : ∃ top mods, ModelsExist m ms top mods r s t := by
  have hc := collected_of_models hms
  have hn : ∀ o ∈ m.operations, (o.responseBody.variants.map fun e => e.2.name).Nodup := by
    rcases hm with ⟨d, namePrefix, ws, h⟩ | hn
    · intro o ho
      obtain ⟨_, _, _, hbody⟩ := Resolve.exists_run_responseBody h ho
      exact Resolve.nodup_names_of_responseBody hbody
    · exact hn
  have hnames : ∀ c ∈ [r, s, t], ∃ rest, c.code = modelsImport m ++ rest ∧
      Fits "models" (· ∈ ms.map (·.name)) true rest true :=
    fits_siblings (by decide) hc hn hr hs ht (fun h => absurd h (by decide)) (fun _ _ hx => hx)
  have hserver : ∀ c ∈ [r, s, t], ∃ rest, c.code = modelsImport m ++ rest ∧
      Fits "super" (· = "server") true rest true :=
    fits_siblings (by decide) hc hn hr hs ht (fun _ => rfl) (fun h => absurd h (by decide))
  have himport : Fits "models" (· ∈ ms.map (·.name)) true (modelsImport m) true :=
    fits_modelsImport (by decide) m fun h => absurd h (by decide)
  have hexport : Pieces (fun a c => c = flat "pub use self::" ++ word (Naming.fieldIdent a.name) ++
      (flat "::" ++ word a.name ++ flat ";")) ms (exportModule ms).code :=
    .flatMap (fun a => by simp only [Model.exportLine, List.append_assoc]) ms
  exact ⟨exportModule ms, ms.map (·.sourceModule), {
    modules := modelModules_eq_ok.2 ⟨ms, hms, rfl⟩
    text := texts_of_models ms
    exported := ⟨rfl, hexport⟩
    declared := declaredTypes_modules ms
    nodup := hc.nodup
    siblings := by
      intro c hmem
      constructor
      · obtain ⟨rest, hcode, hfits⟩ := hnames c hmem
        rw [hcode]
        exact fun x => (himport.append hfits).allowed_of_mentions
      · obtain ⟨rest, hcode, hfits⟩ := hserver c hmem
        exact ⟨rest, hcode, fun x => hfits.allowed_of_mentions⟩
    models := by
      intro c hmem x
      obtain ⟨a, ha, rfl⟩ := List.mem_map.1 hmem
      exact mentions_model hc ha x
    first := fun a ha => exists_first hc ha
    found := fun u hu x hx => hc.mem_names hu hx }⟩

open Resolve (reportDocument reportMetadata reportWarnings resolve_reportDocument) in
theorem models_exist_reports :
    reportDocument.resolve "Api" = .ok (reportMetadata, reportWarnings) ∧
      (models reportMetadata).1 = .ok reportModels ∧
      ∃ r s t, contractModule reportMetadata = .ok r ∧ controllerModule reportMetadata = .ok s ∧
        clientModule reportMetadata = .ok t ∧
        ∃ top mods, ModelsExist reportMetadata reportModels top mods r s t := by
  obtain ⟨r, hr⟩ := exists_contractModule_reports
  obtain ⟨s, hs⟩ := exists_controllerModule_reports
  obtain ⟨t, ht⟩ := exists_clientModule_reports
  exact ⟨resolve_reportDocument, models_reports, r, s, t, hr, hs, ht,
    models_exist (Or.inl ⟨reportDocument, "Api", reportWarnings, resolve_reportDocument⟩)
      models_reports hr hs ht⟩

end Generated

end Emit
end ApiContract
