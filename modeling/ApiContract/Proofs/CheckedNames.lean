import ApiContract.Proofs.AcceptedNames
import ApiContract.Proofs.GeneratedModels
import ApiContract.Proofs.PrintedIdentifiers

/-!
# What the check of names covers

**Input:** any metadata that the check of names accepts, made by hand or resolved from a document.

Fields, arguments, functions and local names are made legal, whatever they are called.  The names of
types and variants are taken as they are: the check goes through those in the table and in the sums
of each operation.  A sum of responses has one variant for each name, and of two responses with the
same name it keeps the later one.  A client is made from the responses themselves, so it also names
the types of those that are not kept, which nobody has checked.

**Results:**

* `hasLegalNames_of_not_replaced`: what a response carries is checked, unless a later one replaces
  it;
* `makes_handler`, `makes_clientMethod` and others: the identifiers of each part of generated code;
* `checked_identifiers`: all identifiers that emitters make, and so all names that they print, are
  legal but for the types of responses that are not kept, which a client names; an emitter breaks
  down because of such a type only;
* `resolved_identifiers`: no emitter breaks down on a resolved document.
-/

namespace ApiContract

open Naming (Legal fieldIdent)

namespace Emit

open Making (ident)

/-! ## Fixed and local names -/

/-- The local name of a parameter is legal. -/
theorem legal_localIdent (s : String) : Legal (localIdent (fieldIdent s)) := by
  unfold localIdent
  split
  · exact (Naming.legal_fieldIdent s).append (Naming.follows_of_all (by decide) (by decide))
  · exact Naming.legal_fieldIdent s

/-- The local name of a form field is legal. -/
theorem legal_fieldLocal (s : String) : Legal ("field_" ++ fieldIdent s) := by
  have hfront : "field_".toList = ['f', 'i', 'e', 'l', 'd', '_'] := rfl
  refine ⟨⟨'f', ['i', 'e', 'l', 'd', '_'] ++ (fieldIdent s).toList, ?_, Or.inl rfl⟩,
    fun c hc => ?_, ?_⟩
  · rw [String.toList_append, hfront]
    rfl
  · rw [String.toList_append, List.mem_append] at hc
    rcases hc with hc | hc
    · have hall : "field_".toList.all Naming.isIdentChar = true := by decide
      exact Naming.isIdentChar_iff.1 (List.all_eq_true.1 hall c hc)
    · exact Naming.mem_fieldIdent hc
  · refine Naming.not_mem_keywords_of_mem ?_
    rw [String.toList_append, hfront]
    simp

theorem legal_uploadModel : Legal uploadModel :=
  Naming.isTypeIdent_iff.1 (by decide)

theorem legal_requestIdent : Legal requestIdent :=
  Naming.isTypeIdent_iff.1 (by decide)

theorem legal_methodName (m : Method) : Legal m.name := by
  refine Naming.isTypeIdent_iff.1 ?_
  cases m <;> decide

theorem not_isDigit_of_isAlpha {c : Char} (h : c.isAlpha = true) : c.isDigit = false := by
  have halphanum : c.isAlphanum = true := by simp [Char.isAlphanum, h]
  exact Naming.forall_of_ascii (fun c => c.isAlpha = true →
    c.isDigit = false) (by decide) halphanum h

/-- What is legal is taken for an identifier. -/
theorem isIdentText_of_legal {s : String} (h : Legal s) : isIdentText s = true := by
  obtain ⟨c, rest, hs, hstart⟩ := h.starts
  have hchars : ∀ d ∈ c :: rest, (Naming.isIdentChar d || d.toNat ≥ 128) = true := by
    intro d hd
    rw [Bool.or_eq_true]
    exact Or.inl (Naming.isIdentChar_iff.2 (h.chars d (hs ▸ hd)))
  obtain ⟨hc, hrest⟩ := List.forall_mem_cons.1 hchars
  have hdigit : c.isDigit = false := by
    rcases hstart with halpha | ⟨rfl, -⟩
    · exact not_isDigit_of_isAlpha halpha
    · rfl
  rw [isIdentText, hs]
  simp only [hc, hdigit, Bool.not_false, Bool.and_self, Bool.true_and]
  exact List.all_eq_true.2 hrest

/-! ## Responses that are not kept -/

/-- A response whose name a later one has as well, which takes its place in the sum. -/
def Replaced (b : ResponseBody) (v : Variant) : Prop :=
  ∃ before s after, b.variants = before ++ (s, v) :: after ∧ ∃ e ∈ after, e.2.name = v.name

/-- What a client reads of a response: its headers, and its body unless that is a file. -/
def readTypes (v : Variant) : List Descriptor :=
  v.headers.toList ++ if v.isFile then [] else v.body?.toList

/-- A model of which the type of something is made that a client reads of a replaced response. -/
def NamedByReplaced (m : Metadata) (i : String) : Prop :=
  ∃ o ∈ m.operations, ∃ v, Replaced o.responseBody v ∧
    ∃ t ∈ readTypes v, ∃ c, typeOf m.refs t = .ok c ∧ i ∈ c.models

section Responses

variable {b : ResponseBody} {e : Status × Variant} {k : String} {ts : List Descriptor}

/-- Responses by their names, with what they carry. -/
def offers (b : ResponseBody) : Assoc String (List Descriptor) :=
  b.variants.map fun e => (e.2.name, e.2.members)

/-- The sum has the latest response of every name. -/
theorem mem_putAll_of_latest? (h : (offers b).latest? k = some ts) :
    (k, ts) ∈ Assoc.putAll [] (offers b) := by
  have hget : (Assoc.putAll [] (offers b)).get? k = some ts := by
    rw [Assoc.get?_putAll, h, Option.some_or]
  obtain ⟨before, after, he, -⟩ := List.lookup_eq_some_iff.1 hget
  rw [he]
  exact List.mem_append_right _ List.mem_cons_self

theorem latest?_offers_of_not_replaced (he : e ∈ b.variants) (hk : ¬ Replaced b e.2) :
    (offers b).latest? e.2.name = some e.2.members := by
  obtain ⟨before, after, hsplit⟩ := List.append_of_mem he
  have hlater : e.2.name ∉ (after.map fun e => (e.2.name, e.2.members)).map Prod.fst := by
    intro hmem
    rw [List.map_map] at hmem
    obtain ⟨f, hf, hname⟩ := List.mem_map.1 hmem
    exact hk ⟨before, e.1, after, hsplit, f, hf, hname⟩
  rw [offers, hsplit, List.map_append, List.map_cons, ← List.singleton_append, ← List.append_assoc,
    Assoc.latest?_append_of_not_mem hlater, Assoc.latest?_append_of_mem (by simp)]
  simp [Assoc.latest?]

variable (hb : b.sum.HasLegalNames)

include hb

theorem legal_offers : Legal b.className ∧
    ∀ f ∈ Assoc.putAll [] (offers b), Legal f.1 ∧ ∀ u ∈ f.2, u.HasLegalNames := by
  rw [Resolve.sum_eq_putAll] at hb
  exact Descriptor.hasLegalNames_oneOf.1 hb

/-- Every response has a name that the sum has. -/
theorem legal_variantName (he : e ∈ b.variants) : Legal e.2.name := by
  cases h : (offers b).latest? e.2.name with
  | none =>
      refine absurd ?_ (Assoc.latest?_eq_none_iff.1 h)
      rw [offers, List.map_map]
      exact List.mem_map.2 ⟨e, he, rfl⟩
  | some ts => exact ((legal_offers hb).2 _ (mem_putAll_of_latest? h)).1

/-- What a response carries that is not replaced is in the sum. -/
theorem hasLegalNames_of_not_replaced (he : e ∈ b.variants) (hk : ¬ Replaced b e.2) :
    ∀ u ∈ e.2.members, u.HasLegalNames :=
  ((legal_offers hb).2 _ (mem_putAll_of_latest? (latest?_offers_of_not_replaced he hk))).2

end Responses

theorem not_replaced_of_nodup {b : ResponseBody} (hn : (b.variants.map fun e => e.2.name).Nodup)
    (v : Variant) : ¬ Replaced b v := by
  rintro ⟨before, s, after, hsplit, e, he, hname⟩
  rw [hsplit, List.map_append, List.map_cons] at hn
  have hafter := (List.nodup_cons.1 (List.nodup_append.1 hn).2.1).1
  exact hafter (List.mem_map.2 ⟨e, he, hname⟩)

/-! ## Names that are checked -/

theorem allNames_of_hasLegalNames {t : Descriptor} (ht : t.HasLegalNames) : AllNames Legal t := by
  intro u hu x hx
  refine ht x (List.mem_flatMap.2 ⟨u, hu, ?_⟩)
  cases u with
  | oneOf name vs =>
      obtain rfl := Option.some.inj hx
      exact List.mem_cons_self
  | _ => exact Option.mem_toList.2 hx

theorem AllNames.name {p : String → Prop} {t : Descriptor} {x : String} (ht : AllNames p t)
    (hx : t.name? = some x) : p x :=
  ht t t.mem_parts_self x hx

/-- An operation whose sums have legal names, at any depth. -/
structure Checked (o : Operation) : Prop where
  /-- The responses, as far as the sum keeps them. -/
  responses : o.responseBody.sum.HasLegalNames
  /-- The request bodies. -/
  request : ∀ b, o.requestBody = some b →
    Legal b.className ∧ ∀ e ∈ b.content, AllNames Legal e.2

section Check

variable {m : Metadata} (hcheck : checkNames m = .ok ())

include hcheck

theorem legal_namePrefix : Legal m.namePrefix :=
  (checkNames_eq_ok_iff.1 hcheck).1

theorem allNames_of_get? (q : String) (u : Descriptor) (hu : m.refs.get? q = some u) :
    AllNames Legal u := by
  have hroot : u ∈ roots m :=
    List.mem_append_left _ (List.mem_map.2 ⟨(q, u), RefTable.mem_entries_of_get? hu, rfl⟩)
  exact allNames_of_hasLegalNames ((checkNames_eq_ok_iff.1 hcheck).2 u hroot)

theorem checked_of_mem {o : Operation} (ho : o ∈ m.operations) : Checked o := by
  have hsums : ∀ t ∈ sumsOf o, t.HasLegalNames := fun t ht =>
    (checkNames_eq_ok_iff.1 hcheck).2 t (List.mem_append_right _ (List.mem_flatMap.2 ⟨o, ho, ht⟩))
  refine ⟨hsums _ List.mem_cons_self, fun b hb => ?_⟩
  have hmem : b.sum ∈ sumsOf o := by
    rw [sumsOf, hb]
    exact List.mem_cons_of_mem _ (List.mem_singleton.2 rfl)
  obtain ⟨hclass, hvariants⟩ := Descriptor.hasLegalNames_oneOf.1 (hsums _ hmem)
  refine ⟨hclass, fun e he => allNames_of_hasLegalNames ?_⟩
  exact (hvariants _ (List.mem_map.2 ⟨e, he, rfl⟩)).2 e.2 List.mem_cons_self

end Check

/-! ## Contracts -/

section Contracts

variable {o : Operation}

theorem makes_paramsAfter (done : List ContractParam) (ps : List Param) :
    Makes Legal (makeParamsAfter o done ps) := by
  induction ps generalizing done with
  | nil => exact .pure
  | cons p ps ih =>
      rw [makeParamsAfter]
      refine (Makes.quiet _).bind fun _ _ => ?_
      refine (Makes.ident (Naming.legal_fieldIdent _)).bind fun _ _ => ?_
      split
      · exact .quiet _
      · exact ih _

variable (ho : Checked o)

include ho

theorem makes_contractParams : Makes Legal (makeContractParams o) := by
  refine (makes_paramsAfter [] o.params).bind fun _ _ => ?_
  split
  · exact .pure
  · rename_i b hb
    refine (Makes.ident (ho.request b hb).1).bind fun _ _ => ?_
    exact (Makes.ident legal_requestIdent).bind fun _ _ => .pure

theorem makes_contractMethod : Makes Legal (makeContractMethod o) := by
  refine (Makes.ident (Naming.legal_fieldIdent _)).bind fun _ _ => ?_
  refine (Makes.ident (legal_offers ho.responses).1).bind fun _ _ => ?_
  exact (makes_contractParams ho).bind fun _ _ => .pure

end Contracts

/-! ## Handlers -/

section Handlers

variable {refs : RefTable} {o : Operation} {t : Descriptor}

theorem makes_paramRead (p : Param) : Makes Legal (makeParamRead o p) :=
  (Makes.ident (legal_localIdent _)).bind fun _ _ => (Makes.quiet _).bind fun _ _ => .pure

theorem makes_fieldRead (multipart : Bool) (p : Property) :
    Makes Legal (makeFieldRead refs multipart p) :=
  (Makes.ident (Naming.legal_fieldIdent _)).bind fun _ h => by
    obtain rfl := Except.ok.inj h
    exact (Makes.ident (legal_fieldLocal _)).bind fun _ _ => .quiet _

theorem makes_headerWrites (v : Variant) (h : Descriptor) : Makes Legal (makeHeaderWrites v h) :=
  (Makes.ident (Naming.legal_fieldIdent _)).bind fun _ _ => (Makes.quiet _).bind fun _ _ =>
    Makes.mapM fun _ _ => (Makes.ident (Naming.legal_fieldIdent _)).bind fun _ _ => .pure

theorem makes_dispatchArm (s : Status) {v : Variant} (hv : Legal v.name) :
    Makes Legal (makeDispatchArm o s v) := by
  obtain ⟨name, headers?, payload⟩ := v
  refine (Makes.ident hv).bind fun _ _ => ?_
  refine (Makes.mapM fun _ _ => .ident (Naming.legal_fieldIdent _)).bind fun _ _ => ?_
  refine (Makes.quiet _).bind fun _ _ => ?_
  cases headers? with
  | none => exact Makes.pure.bind fun _ _ => .pure
  | some h => exact (makes_headerWrites _ h).bind fun _ _ => .pure

variable (hrefs : ∀ q u, refs.get? q = some u → AllNames Legal u)

include hrefs

/-- The record behind a form body has a legal name. -/
theorem legal_of_formRecord (ht : AllNames Legal t) {name : String} {ps : List Property}
    (h : formRecord refs t = .ok (name, ps)) : Legal name := by
  obtain ⟨u, hu, h⟩ := bind_eq_ok.1 h
  have hnamed := allNames_of_resolve? hrefs ht (target_eq_ok.1 hu)
  split at h
  · obtain ⟨rfl, -⟩ := Prod.mk.inj (Except.ok.inj h)
    exact hnamed.name rfl
  · cases h

theorem makes_formRead (multipart : Bool) (ht : AllNames Legal t) :
    Makes Legal (makeFormRead refs multipart t) := by
  refine (Makes.quiet _).bind fun r hr => ?_
  refine (Makes.ident (legal_of_formRecord hrefs ht hr)).bind fun _ _ => ?_
  exact (Makes.mapM fun p _ => makes_fieldRead multipart p).bind fun _ _ => .pure

theorem makes_bodyArm (media : Media) (ht : AllNames Legal t) :
    Makes Legal (makeBodyArm refs media t) := by
  refine (Makes.ident (Resolve.legal_tag media)).bind fun _ _ => ?_
  refine (Makes.ident (Naming.legal_fieldIdent _)).bind fun _ _ => ?_
  cases media with
  | json => exact Makes.pure.bind fun _ _ => .pure
  | xml => exact Makes.pure.bind fun _ _ => .pure
  | form => exact (makes_formRead hrefs false ht).map.bind fun _ _ => .pure
  | multipart => exact (makes_formRead hrefs true ht).map.bind fun _ _ => .pure

variable (ho : Checked o)

include ho

theorem makes_bodyDispatch {b : RequestBody} (hb : o.requestBody = some b) :
    Makes Legal (makeBodyDispatch refs b) := by
  obtain ⟨hclass, hcontent⟩ := ho.request b hb
  refine (Makes.ident hclass).bind fun _ _ => ?_
  exact (Makes.mapM fun e he => makes_bodyArm hrefs e.1 (hcontent e he)).bind fun _ _ => .pure

theorem makes_handler : Makes Legal (makeHandler refs o) := by
  have hresponse := (legal_offers ho.responses).1
  have harms : Makes Legal (o.responseBody.variants.mapM fun e => makeDispatchArm o e.1 e.2) :=
    .mapM fun e he => makes_dispatchArm e.1 (legal_variantName ho.responses he)
  refine (Makes.ident (Naming.legal_fieldIdent _)).bind fun _ _ => ?_
  refine (makes_contractParams ho).bind fun params hparams => ?_
  refine (Makes.mapM fun p _ => makes_paramRead p).bind fun _ _ => ?_
  have harguments : ∀ c ∈ params, Legal (argumentOf c) := by
    -- An argument is named after a parameter, or it is the request body.
    rw [result_makeContractParams] at hparams
    obtain ⟨ps, rfl, hps, -⟩ := contractParams_eq_ok hparams
    intro c hc
    rcases List.mem_append.1 hc with hc | hc
    · obtain ⟨p, -, q, -, rfl⟩ := exists_of_mem_right hps hc
      exact legal_localIdent p.name
    · obtain ⟨b, -, rfl⟩ := Option.map_eq_some_iff.1 (Option.mem_toList.1 hc)
      exact legal_requestIdent
  refine (Makes.mapM fun c hc => .ident (harguments c hc)).bind fun _ _ => ?_
  split
  · exact Makes.pure.bind fun _ _ => (Makes.ident hresponse).bind fun _ _ =>
      harms.bind fun _ _ => .pure
  · rename_i b hb
    exact (makes_bodyDispatch hrefs ho hb).map.bind fun _ _ =>
      (Makes.ident hresponse).bind fun _ _ =>
      harms.bind fun _ _ => .pure

end Handlers

/-! ## Clients -/

section Clients

variable {refs : RefTable} {o : Operation} {t : Descriptor}

theorem makes_headerRead (p : Property) : Makes Legal (makeHeaderRead p) :=
  (Makes.ident (Naming.legal_fieldIdent _)).bind fun _ _ => .quiet _

section Responses

variable {p : String → Prop} (hp : ∀ i, Legal i → p i)

include hp

/-- Reading a response makes legal identifiers, and the models of what is read. -/
theorem makes_decodeArm (s : Status) {v : Variant} (hv : Legal v.name)
    (htypes : ∀ t ∈ readTypes v, ∀ c, typeOf refs t = .ok c → ∀ i ∈ c.models, p i) :
    Makes p (makeDecodeArm refs s v) := by
  have hmember : ∀ t, Makes p (ident (memberIdent t)) :=
    fun t => .ident (hp _ (Naming.legal_fieldIdent _))
  obtain ⟨name, headers?, payload⟩ := v
  have hbody : Makes p (makeResponseRead refs payload) := by
    rcases payload with _ | ⟨t, _ | _⟩
    · exact .pure
    · refine (hmember t).bind fun _ _ => ?_
      refine (Makes.type (htypes t ?_)).bind fun _ _ => .pure
      simp [readTypes, Variant.isFile, Variant.body?]
    · exact (hmember t).bind fun _ _ => .pure
  have hrest : ∀ {β : Type} (f : ResponseRead → List String → β), Makes p (do
      let body ← makeResponseRead refs payload
      let bindings ← (Variant.mk name headers? payload).members.mapM fun t => ident (memberIdent t)
      return f body bindings) :=
    fun f => hbody.bind fun _ _ => (Makes.mapM fun t _ => hmember t).bind fun _ _ => .pure
  refine (Makes.ident (hp _ hv)).bind fun _ _ => ?_
  cases headers? with
  | none => exact Makes.pure.bind fun _ _ => hrest _
  | some h =>
      have hheaders : Makes p (makeHeaderReads refs ⟨name, some h, payload⟩ h) := by
        refine (hmember h).bind fun _ _ => ?_
        refine (Makes.type (htypes h ?_)).bind fun _ _ => ?_
        · simp [readTypes]
        · refine (Makes.quiet _).bind fun _ _ => ?_
          exact (Makes.mapM fun q _ => (makes_headerRead q).mono hp).bind fun _ _ => .pure
      exact hheaders.map.bind fun _ _ => hrest _

end Responses

variable (hrefs : ∀ q u, refs.get? q = some u → AllNames Legal u)

include hrefs

theorem makes_encodeArm (media : Media) (ht : AllNames Legal t) :
    Makes Legal (makeEncodeArm refs media t) := by
  refine (Makes.ident (Resolve.legal_tag media)).bind fun _ _ => ?_
  refine (Makes.ident (Naming.legal_fieldIdent _)).bind fun _ _ => ?_
  cases media with
  | json => exact Makes.pure.bind fun _ _ => .pure
  | form => exact Makes.pure.bind fun _ _ => .pure
  | xml => exact Makes.pure.bind fun _ _ => .pure
  | multipart =>
      refine (Makes.quiet _).bind fun r hr => ?_
      refine (Makes.ident (legal_of_formRecord hrefs ht hr)).bind fun _ _ => ?_
      refine (Makes.mapM fun q _ => ?_).bind fun _ _ => Makes.pure.bind fun _ _ => .pure
      exact (Makes.ident (Naming.legal_fieldIdent _)).bind fun _ _ => .pure

variable (ho : Checked o)

include ho

theorem makes_bodyEncode {b : RequestBody} (hb : o.requestBody = some b) :
    Makes Legal (makeBodyEncode refs b) := by
  obtain ⟨hclass, hcontent⟩ := ho.request b hb
  refine (Makes.ident hclass).bind fun _ _ => ?_
  exact (Makes.mapM fun e he => makes_encodeArm hrefs e.1 (hcontent e he)).bind fun _ _ => .pure

/-- A client method makes legal identifiers, and the models of what it reads of replaced
responses. -/
theorem makes_clientMethod {p : String → Prop} (hp : ∀ i, Legal i → p i)
    (hreplaced : ∀ v, Replaced o.responseBody v → ∀ t ∈ readTypes v, ∀ c, typeOf refs t = .ok c →
      ∀ i ∈ c.models, p i) :
    Makes p (makeClientMethod refs o) := by
  have harms : Makes p (o.responseBody.variants.mapM fun e => makeDecodeArm refs e.1 e.2) := by
    refine .mapM fun e he => makes_decodeArm hp e.1 (legal_variantName ho.responses he) ?_
    intro t ht c hc i hi
    by_cases hk : Replaced o.responseBody e.2
    · exact hreplaced e.2 hk t ht c hc i hi
    · have hmember : t ∈ e.2.members := by
        unfold readTypes at ht
        split at ht <;> simp_all [Variant.members, or_comm]
      have hnamed := allNames_of_hasLegalNames
        (hasLegalNames_of_not_replaced ho.responses he hk t hmember)
      exact hp i (forall_models_of_typeWithin legal_uploadModel hrefs hnamed hc i hi)
  refine (Makes.ident (hp _ (Naming.legal_fieldIdent _))).bind fun _ _ => ?_
  refine (Makes.ident (hp _ (legal_methodName _))).bind fun _ _ => ?_
  refine (Makes.ident (hp _ (legal_offers ho.responses).1)).bind fun _ _ => ?_
  refine ((makes_contractParams ho).mono hp).bind fun _ _ => ?_
  split
  · exact Makes.pure.bind fun _ _ => harms.bind fun _ _ => .pure
  · rename_i b hb
    exact ((makes_bodyEncode hrefs ho hb).mono hp).map.bind fun _ _ => harms.bind fun _ _ => .pure

end Clients

/-! ## Models -/

section Models

variable {refs : RefTable} {t : Descriptor} (hrefs : ∀ q u, refs.get? q = some u → AllNames Legal u)

include hrefs

theorem makes_field {q : Property} (hq : q.type.HasLegalNames) :
    Makes Legal (makeField refs q) := by
  refine (Makes.ident (Naming.legal_fieldIdent _)).bind fun _ _ => ?_
  refine (Makes.type fun c hc => ?_).bind fun _ _ => .pure
  exact forall_models_of_fieldType legal_uploadModel hrefs (allNames_of_hasLegalNames hq) hc

theorem makes_record {name : String} {ps : List Property} (hname : Legal name)
    (hps : ∀ q ∈ ps, q.type.HasLegalNames) : Makes Legal (makeRecord refs name ps) := by
  refine (Makes.ident hname).bind fun _ _ => ?_
  split
  · exact .pure
  · exact (Makes.mapM fun q hq => makes_field hrefs (hps q hq)).map

theorem makes_sum {name : String} {vs : List (String × List Descriptor)} (hname : Legal name)
    (hvs : ∀ v ∈ vs, Legal v.1 ∧ ∀ u ∈ v.2, u.HasLegalNames) :
    Makes Legal (makeSum refs name vs) := by
  refine (Makes.ident hname).bind fun _ _ => (Makes.mapM fun v hv => ?_).map
  obtain ⟨htag, hmembers⟩ := hvs v hv
  refine (Makes.ident htag).bind fun _ _ => (Makes.mapM fun u hu => ?_).bind fun _ _ => .pure
  refine (Makes.ident (Naming.legal_fieldIdent _)).bind fun _ _ => ?_
  refine (Makes.type fun c hc => ?_).bind fun _ _ => .pure
  have hu := allNames_of_hasLegalNames (hmembers u hu)
  exact forall_models_of_typeWithin legal_uploadModel hrefs hu hc

theorem makes_of_makeModel? {name : String} {shape : Making ModelShape} (ht : t.HasLegalNames)
    (h : makeModel? refs t = some (name, shape)) : Makes Legal shape := by
  unfold makeModel? at h
  split at h
  · obtain ⟨rfl, rfl⟩ := Prod.mk.inj (Option.some.inj h)
    obtain ⟨hname, he⟩ := Descriptor.hasLegalNames_array.1 ht
    refine makes_record hrefs (hname _ rfl) (List.forall_mem_singleton.2 ?_)
    exact Descriptor.hasLegalNames_array.2 ⟨by simp, he⟩
  · obtain ⟨rfl, rfl⟩ := Prod.mk.inj (Option.some.inj h)
    obtain ⟨hname, hps⟩ := Descriptor.hasLegalNames_object.1 ht
    exact makes_record hrefs (hname _ rfl) hps
  · obtain ⟨rfl, rfl⟩ := Prod.mk.inj (Option.some.inj h)
    obtain ⟨hname, hvs⟩ := Descriptor.hasLegalNames_oneOf.1 ht
    exact makes_sum hrefs hname hvs
  · cases h

theorem makes_modelsAfter {ts : List Descriptor} (hts : ∀ t ∈ ts, t.HasLegalNames)
    (done : List Model) : Makes Legal (makeModelsAfter refs done ts) := by
  induction ts generalizing done with
  | nil => exact .pure
  | cons t ts ih =>
      obtain ⟨ht, hts⟩ := List.forall_mem_cons.1 hts
      rw [makeModelsAfter]
      split
      · exact ih hts done
      · rename_i name shape hmodel
        split
        · exact ih hts done
        · exact (makes_of_makeModel? hrefs ht hmodel).bind fun s _ => ih hts _

end Models

/-! ## What a client names -/

section Reading

variable {refs : RefTable} {m : Metadata} {i : String}

/-- Where a response is read, the models of what is read of it are named. -/
theorem mem_names_of_decodeArm {s : Status} {v : Variant} {b : DecodeArm}
    (h : decodeArm refs s v = .ok b) {t : Descriptor} (ht : t ∈ readTypes v) {c : CodeType}
    (hc : typeOf refs t = .ok c) (hi : i ∈ c.models) : i ∈ b.names := by
  obtain ⟨-, -, -, hheaders, hbody⟩ := decodeArm_eq_ok h
  unfold DecodeArm.names
  rcases List.mem_append.1 ht with ht | ht
  · rw [headersRead, Option.mem_toList.1 ht] at hheaders
    obtain ⟨type, htype, hheaders⟩ := bind_eq_ok.1 hheaders
    obtain rfl := Except.ok.inj (hc.symm.trans htype)
    obtain ⟨ps, -, hheaders⟩ := bind_eq_ok.1 hheaders
    obtain ⟨fields, -, hheaders⟩ := bind_eq_ok.1 hheaders
    rw [← Except.ok.inj hheaders]
    simp [hi]
  · have hpayload : v.payload = .body t false := by
      obtain ⟨name, headers?, payload⟩ := v
      rcases payload with _ | ⟨u, _ | _⟩ <;> simp_all [Variant.isFile, Variant.body?]
    rw [hpayload] at hbody
    obtain ⟨type, htype, hbody⟩ := map_eq_ok.1 hbody
    obtain rfl := Except.ok.inj (hc.symm.trans htype)
    rw [← hbody]
    simp [ResponseRead.names, hi]

/-- A client that comes to its end makes the models of what it reads of replaced responses. -/
theorem PrintedMade.namedByReplaced (h : PrintedMade m) {s : SourceModule}
    (hs : clientModule m = .ok s) (hi : NamedByReplaced m i) : i ∈ (makeClient m).made := by
  obtain ⟨o, ho, v, ⟨before, status, after, hsplit, -⟩, t, ht, c, hc, hi⟩ := hi
  have he : (status, v) ∈ o.responseBody.variants := by
    rw [hsplit]
    exact List.mem_append_right _ List.mem_cons_self
  obtain ⟨_, -, hs⟩ := bind_eq_ok.1 hs
  obtain ⟨ks, hks, -⟩ := bind_eq_ok.1 hs
  obtain ⟨k, hk, hmethod⟩ := exists_of_mem_right (mapM_eq_ok.1 hks).flip ho
  obtain ⟨_, -, hof⟩ := clientMethod_eq_ok hmethod
  obtain ⟨b, hb, harm⟩ := exists_of_mem_right hof.arms.flip he
  have hnames := mem_names_of_decodeArm harm ht hc hi
  refine h.client ks hks (List.mem_cons_of_mem _ (List.mem_flatMap.2 ⟨k, hk, ?_⟩))
  exact List.mem_append_right _ (List.mem_flatMap.2 ⟨b, hb, hnames⟩)

end Reading

/-! ## Emitters -/

/-- The identifiers that emitters make of metadata. -/
structure IdentifiersOf (m : Metadata) : Prop where
  /-- Those of the contract. -/
  contract : Makes Legal (makeContract m)
  /-- Those of the handlers and the controller. -/
  controller : Makes Legal (makeController m)
  /-- Those of the models and of their modules. -/
  models : Makes Legal (makeModels m)
  /-- Those of the client, which may name what it reads of replaced responses. -/
  client : Makes (fun i => Legal i ∨ NamedByReplaced m i) (makeClient m)
  /-- It does so if it comes to its end. -/
  replaced : ∀ s, clientModule m = .ok s → ∀ i, NamedByReplaced m i → i ∈ (makeClient m).made
  /-- All names in generated code are among them. -/
  printed : PrintedMade m

section Emitters

variable {m : Metadata}

theorem hasLegalNames_of_mem_allParts (hcheck : checkNames m = .ok ()) :
    ∀ t ∈ allParts m, t.HasLegalNames := by
  intro t ht n hn
  obtain ⟨root, hroot, ht⟩ := List.mem_flatMap.1 ht
  obtain ⟨u, hu, hn⟩ := List.mem_flatMap.1 hn
  have hlegal := (checkNames_eq_ok_iff.1 hcheck).2 root hroot
  exact hlegal n (List.mem_flatMap.2 ⟨u, Descriptor.parts_subset root ht hu, hn⟩)

theorem makes_models (hcheck : checkNames m = .ok ()) : Makes Legal (makeModels m) := by
  have hparts := hasLegalNames_of_mem_allParts hcheck
  refine (Makes.quiet _).bind fun _ _ => ?_
  refine (Makes.ident legal_uploadModel).bind fun s hs => ?_
  obtain rfl := Except.ok.inj hs
  refine (makes_modelsAfter (allNames_of_get? hcheck) hparts _).bind fun ms hms => ?_
  have hmodels : (Emit.models m).1 = .ok ms := (result_makeModelsAfter hcheck).symm.trans hms
  refine (Makes.mapM fun r hr => ?_).bind fun _ _ => .quiet _
  have hname : Legal r.name := by
    rcases (collected_of_models hmodels).made r hr with rfl | ⟨t, ht, -, hmade⟩
    · exact legal_uploadModel
    · exact (allNames_of_hasLegalNames (hparts t ht)).name (name?_of_modelOf? hmade)
  exact (Makes.ident (Naming.legal_fieldIdent _)).bind fun _ _ => .ident hname

theorem identifiersOf (hcheck : checkNames m = .ok ()) : IdentifiersOf m := by
  have hrefs := allNames_of_get? hcheck
  have hname : ∀ ending ∈ ["Spec", "Controller", "Client"], Legal (m.namePrefix ++ ending) := by
    have hhead : ∀ s ∈ ["Spec", "Controller", "Client"],
        s.toList.head?.all (fun c => !c.isLower) = true := by decide
    have hall : ∀ s ∈ ["Spec", "Controller", "Client"],
        s.toList.all Naming.isIdentChar = true := by decide
    exact fun s hs =>
      (legal_namePrefix hcheck).append (Naming.follows_of_all (hhead s hs) (hall s hs))
  have hcontract : Legal (contractName m) := hname _ (by decide)
  have hcontroller : Legal (controllerName m) := hname _ (by decide)
  have hclient : Legal (clientName m) := hname _ (by decide)
  constructor
  case contract =>
    refine (Makes.quiet _).bind fun _ _ => (Makes.ident hcontract).bind fun _ _ => ?_
    refine (Makes.mapM fun o ho => ?_).bind fun _ _ => .quiet _
    exact makes_contractMethod (checked_of_mem hcheck ho)
  case controller =>
    refine (Makes.quiet _).bind fun _ _ => (Makes.ident hcontract).bind fun _ _ => ?_
    refine (Makes.ident hcontroller).bind fun _ _ => ?_
    refine (Makes.mapM fun o ho => makes_handler hrefs (checked_of_mem hcheck ho)).bind fun _ _ =>
      ?_
    exact (Makes.mapM fun o _ => .ident (legal_methodName o.method)).bind fun _ _ => .quiet _
  case models => exact makes_models hcheck
  case client =>
    refine (Makes.quiet _).bind fun _ _ => (Makes.ident (Or.inl hclient)).bind fun _ _ => ?_
    refine (Makes.mapM fun o ho => ?_).bind fun _ _ => .quiet _
    refine makes_clientMethod hrefs (checked_of_mem hcheck ho) (fun _ => Or.inl) ?_
    exact fun v hv t ht c hc i hi => Or.inr ⟨o, ho, v, hv, t, ht, c, hc, hi⟩
  case replaced => exact fun s hs i hi => (printedMade hcheck).namedByReplaced hs hi
  case printed => exact printedMade hcheck

namespace IdentifiersOf

variable {accepts : String → Bool} (h : IdentifiersOf m) (ha : ∀ i, Legal i → accepts i = true)

include h ha

theorem run_contract : (makeContract m).run? accepts = some (contractModule m) := by
  rw [Making.run?_eq_some (h.contract.mono ha), result_makeContract]

theorem run_controller : (makeController m).run? accepts = some (controllerModule m) := by
  rw [Making.run?_eq_some (h.controller.mono ha), result_makeController]

theorem run_models : (makeModels m).run? accepts = some (modelModules m).1 := by
  rw [Making.run?_eq_some (h.models.mono ha), result_makeModels]

theorem run_client (hreplaced : ∀ i, NamedByReplaced m i → accepts i = true) :
    (makeClient m).run? accepts = some (clientModule m) := by
  have hclient : Makes (accepts · = true) (makeClient m) :=
    h.client.mono fun i hi => hi.elim (ha i) (hreplaced i)
  rw [Making.run?_eq_some hclient, result_makeClient]

/-- A client that would come to its end breaks down because of a replaced response only. -/
theorem run_client_eq_none_iff {s : SourceModule} (hs : clientModule m = .ok s) :
    (makeClient m).run? accepts = none ↔ ∃ i, NamedByReplaced m i ∧ accepts i = false := by
  rw [Making.run?_eq_none_iff]
  constructor
  · rintro ⟨i, hi, hrefused⟩
    rcases h.client i hi with hlegal | hnamed
    · rw [ha i hlegal] at hrefused
      cases hrefused
    · exact ⟨i, hnamed, hrefused⟩
  · rintro ⟨i, hnamed, hrefused⟩
    exact ⟨i, h.replaced s hs i hnamed, hrefused⟩

end IdentifiersOf

/-- Of metadata that the check of names accepts, all identifiers are legal, but for the models that
a client names because it reads something of a response that the sum does not keep; generated code
has no other names.  So the emitters end with code or with an error, the client unless such a model
is no identifier; a client that would come to its end breaks down because of such a model only. -/
theorem checked_identifiers (hcheck : checkNames m = .ok ()) :
    IdentifiersOf m ∧
      ∀ accepts : String → Bool, (∀ i, Legal i → accepts i = true) →
        (makeContract m).run? accepts = some (contractModule m) ∧
        (makeController m).run? accepts = some (controllerModule m) ∧
        (makeModels m).run? accepts = some (modelModules m).1 ∧
        ((∀ i, NamedByReplaced m i → accepts i = true) →
          (makeClient m).run? accepts = some (clientModule m)) ∧
        ∀ s, clientModule m = .ok s →
          ((makeClient m).run? accepts = none ↔ ∃ i, NamedByReplaced m i ∧ accepts i = false) := by
  have hof := identifiersOf hcheck
  refine ⟨hof, fun accepts ha => ?_⟩
  exact ⟨hof.run_contract ha, hof.run_controller ha, hof.run_models ha, hof.run_client ha,
    fun _ hs => hof.run_client_eq_none_iff ha hs⟩

end Emitters

/-! ## A replaced response -/

section Things

/-- A response whose body is called `bad name`. -/
def thingFound : Variant where
  name := "Ok"
  headers := none
  payload := .body (.object (some "bad name")
    [{ name := "id", type := .primitive .int, required := true }]) false

/-- An operation in which a later response takes the place of the first one. -/
def thingOperation : Operation where
  path := "/things"
  method := .get
  operationId := "getThing"
  summary := none
  params := []
  requestBody := none
  responseBody := {
    className := "GetThingResponse"
    variants := [
      (.code 200, thingFound),
      (.code 404, { name := "Ok", headers := none, payload := .none })] }

def thingMetadata : Metadata where
  namePrefix := "Api"
  operations := [thingOperation]
  refs := .empty

theorem checkNames_thing : checkNames thingMetadata = .ok () :=
  rfl

theorem typeOf_thing (ps : List Property) :
    typeOf thingMetadata.refs (.object (some "bad name") ps) = .ok (.model "bad name") :=
  typeOf_eq_model_iff.2 ⟨_, rfl, rfl⟩

theorem exists_clientModule_thing : ∃ s, clientModule thingMetadata = .ok s := by
  obtain ⟨a, ha⟩ := exists_decodeArm_of_body (s := .code 200) (v := thingFound) rfl rfl
    (typeOf_thing _)
  have harms : ∃ arms, thingOperation.responseBody.variants.mapM
      (fun e => decodeArm thingMetadata.refs e.1 e.2) = .ok arms :=
    ⟨_, mapM_eq_ok.2 (.cons ha (.cons rfl .nil))⟩
  obtain ⟨arms, harms⟩ := harms
  have hparams : contractParams thingOperation = .ok [] := rfl
  obtain ⟨k, hk, -⟩ := exists_clientMethod_of_none rfl hparams harms
  have hmethods : thingMetadata.operations.mapM (clientMethod thingMetadata.refs) = .ok [k] :=
    mapM_eq_ok.2 (.cons hk .nil)
  exact exists_clientModule_of_methods checkNames_thing hmethods

/-- The client reads the body of the response that is replaced. -/
theorem namedByReplaced_thing : NamedByReplaced thingMetadata "bad name" :=
  ⟨thingOperation, List.mem_cons_self, _,
    ⟨[], _, _, rfl, _, List.mem_cons_self, rfl⟩, _, List.mem_cons_self, _, typeOf_thing _,
    List.mem_cons_self⟩

theorem checked_identifiers_thing :
    checkNames thingMetadata = .ok () ∧
      (makeContract thingMetadata).run? isIdentText = some (contractModule thingMetadata) ∧
      (makeModels thingMetadata).run? isIdentText = some (modelModules thingMetadata).1 ∧
      ((makeClient thingMetadata).run? isIdentText = none ↔
        ∃ i, NamedByReplaced thingMetadata i ∧ isIdentText i = false) := by
  obtain ⟨-, hrun⟩ := checked_identifiers checkNames_thing
  obtain ⟨hcontract, -, hmodels, -, hclient⟩ := hrun isIdentText fun _ => isIdentText_of_legal
  obtain ⟨s, hs⟩ := exists_clientModule_thing
  exact ⟨checkNames_thing, hcontract, hmodels, hclient s hs⟩

/-- The check of names accepts metadata of which no client can be made: the client makes an
identifier of a name that is none. -/
theorem client_names_unchecked :
    checkNames thingMetadata = .ok () ∧ (∃ s, clientModule thingMetadata = .ok s) ∧
      "bad name" ∈ (makeClient thingMetadata).made ∧ ¬ Legal "bad name" ∧
      (makeClient thingMetadata).run? isIdentText = none := by
  obtain ⟨s, hs⟩ := exists_clientModule_thing
  have hmade := (printedMade checkNames_thing).namedByReplaced hs namedByReplaced_thing
  refine ⟨checkNames_thing, ⟨s, hs⟩, hmade, ?_, ?_⟩
  · rw [← Naming.isTypeIdent_iff]
    decide
  · exact Making.run?_eq_none_iff.2 ⟨_, hmade, by decide⟩

end Things

/-! ## Resolved documents -/

section Resolved

variable {d : Document} {namePrefix : String} {m : Metadata} {ws : List Warning}

/-- In a resolved document every response has a name of its own. -/
theorem not_namedByReplaced_of_resolve (h : d.resolve namePrefix = .ok (m, ws)) (i : String) :
    ¬ NamedByReplaced m i := by
  rintro ⟨o, ho, v, hreplaced, -⟩
  obtain ⟨_, _, _, hbody⟩ := Resolve.exists_run_responseBody h ho
  exact not_replaced_of_nodup (Resolve.nodup_names_of_responseBody hbody) v hreplaced

/-- No emitter breaks down on a resolved document. -/
theorem resolved_identifiers (h : d.resolve namePrefix = .ok (m, ws)) :
    (makeContract m).run? isIdentText = some (contractModule m) ∧
      (makeController m).run? isIdentText = some (controllerModule m) ∧
      (makeModels m).run? isIdentText = some (modelModules m).1 ∧
      (makeClient m).run? isIdentText = some (clientModule m) := by
  have hof := identifiersOf (Resolve.checkNames_of_resolve h)
  have ha : ∀ i, Legal i → isIdentText i = true := fun _ => isIdentText_of_legal
  have hclient := hof.run_client ha fun i hi => absurd hi (not_namedByReplaced_of_resolve h i)
  exact ⟨hof.run_contract ha, hof.run_controller ha, hof.run_models ha, hclient⟩

end Resolved

end Emit
end ApiContract
