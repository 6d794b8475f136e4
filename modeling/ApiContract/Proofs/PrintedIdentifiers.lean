import ApiContract.Proofs.MadeIdentifiers
import ApiContract.Proofs.TypeAgreement

/-!
# The identifiers of generated code

**Input:** metadata that the check of names accepts.

Methods, handlers and models carry names into the code that is printed of them.  An emitter makes
each of these names an identifier while it puts them together, so nothing is printed that was not
made.

**Results:**

* `ContractMethod.names`, `Handler.names`, `ClientMethod.names`, `Model.names`: the names in the
  code of each part;
* `names_contractMethod`, `names_handler`, `names_clientMethod`, `names_modelsAfter`: if the
  identifiers that are made for a part are of one kind, so are its names;
* `printedMade`: an emitter that comes to its end has made identifiers of all names that it prints.
-/

namespace ApiContract
namespace Emit

/-! ## Names in code -/

/-- The names of an argument. -/
def ContractParam.names (c : ContractParam) : List String :=
  c.ident :: c.type.models

/-- The names of a contract method. -/
def ContractMethod.names (k : ContractMethod) : List String :=
  k.ident :: k.response :: k.params.flatMap (·.names)

/-- The names that reading a form brings in. -/
def FormRead.names (f : FormRead) : List String :=
  f.record :: f.fields.flatMap fun g => [g.ident, g.binding]

/-- The names that reading a body brings in, besides those of its variant. -/
def BodyRead.names : BodyRead → List String
  | .form f => f.names
  | .multipart f => f.names
  | _ => []

/-- The names of the reading of a request body. -/
def BodyDispatch.names (b : BodyDispatch) : List String :=
  b.className :: b.arms.flatMap fun a => a.media.tag :: a.member :: a.read.names

/-- The name of the body that has the status in it. -/
def StatusSource.names : StatusSource → List String
  | .fixed _ => []
  | .body binding => [binding]

/-- The name of what is written. -/
def BodyWrite.names : BodyWrite → List String
  | .empty => []
  | .file binding => [binding]
  | .json binding => [binding]

/-- The names of the writing of a response. -/
def DispatchArm.names (a : DispatchArm) : List String :=
  a.tag :: a.bindings ++ a.status.names ++
    (a.headers.flatMap fun w => [a.headersBinding, w.field]) ++
    a.body.names

/-- The names of a handler. -/
def Handler.names (h : Handler) : List String :=
  h.ident :: h.response :: h.reads.map (·.binding) ++ h.arguments ++
    h.body.toList.flatMap (·.names) ++ h.arms.flatMap (·.names)

/-- The names that sending a body brings in, besides those of its variant. -/
def BodySend.names : BodySend → List String
  | .multipart parts => parts.map (·.field)
  | _ => []

/-- The names of the sending of a request body. -/
def BodyEncode.names (b : BodyEncode) : List String :=
  b.className :: b.arms.flatMap fun a => a.media.tag :: a.member :: a.send.names

/-- The names that reading the body of a response brings in. -/
def ResponseRead.names : ResponseRead → List String
  | .empty => []
  | .file binding => [binding]
  | .json binding type => binding :: type.models

/-- The names of the reading of a response. -/
def DecodeArm.names (a : DecodeArm) : List String :=
  a.tag :: a.bindings ++
    (a.headers.toList.flatMap fun (binding, type, fields) =>
      binding :: type.models ++ fields.map (·.field)) ++
    a.body.names

/-- The names of a client method. -/
def ClientMethod.names (k : ClientMethod) : List String :=
  k.ident :: k.method.name :: k.response :: k.params.flatMap (·.names) ++ k.sent.map (·.ident) ++
    k.body.toList.flatMap (·.names) ++ k.arms.flatMap (·.names)

/-- The names of a shape. -/
def ModelShape.names : ModelShape → List String
  | .record fields => fields.flatMap fun f => f.ident :: f.type.models
  | .sum variants => variants.flatMap fun v => v.tag :: v.members.flatMap fun e => e.1 :: e.2.models
  | _ => []

/-- The names of a model and of its module. -/
def Model.names (r : Model) : List String :=
  Naming.fieldIdent r.name :: r.name :: r.shape.names

/-! ## Lists -/

section Lists

variable {α β : Type} {p : String → Prop} {as : List α} {bs : List β}

/-- The same step for every element of a list brings in the names that it does for each. -/
theorem names_mapM {f : α → Making β} {names : β → List String} (h : Ends p (as.mapM f) bs)
    (hf : ∀ a b, Ends p (f a) b → ∀ i ∈ names b, p i) : ∀ i ∈ bs.flatMap names, p i := by
  refine List.forall_mem_flatMap.2 fun b hb => ?_
  obtain ⟨a, -, hab⟩ := exists_of_mem_right (Ends.mapM_iff.1 h) hb
  exact hf a b hab

end Lists

/-! ## Contracts -/

section Contracts

variable {p : String → Prop} {o : Operation}

@[simp] theorem models_optionalUnless (required : Bool) (t : CodeType) :
    (optionalUnless required t).models = t.models := by
  cases required <;> rfl

theorem names_paramsAfter {done cs : List ContractParam} {ps : List Param}
    (hdone : ∀ i ∈ done.flatMap (·.names), p i) (h : Ends p (makeParamsAfter o done ps) cs) :
    ∀ i ∈ cs.flatMap (·.names), p i := by
  induction ps generalizing done with
  | nil =>
      obtain rfl := Ends.pure_iff.1 h
      exact hdone
  | cons q ps ih =>
      rw [makeParamsAfter] at h
      obtain ⟨scalar, -, h⟩ := Ends.bind_iff.1 h
      obtain ⟨name, hname, h⟩ := Ends.bind_iff.1 h
      split at h
      · cases Ends.quiet_iff.1 h
      · refine ih ?_ h
        rw [List.flatMap_append, List.forall_mem_append]
        refine ⟨hdone, ?_⟩
        obtain ⟨hident, rfl⟩ := Ends.ident_iff.1 hname
        simpa [ContractParam.names, CodeType.models] using hident

theorem names_contractParams {cs : List ContractParam} (h : Ends p (makeContractParams o) cs) :
    ∀ i ∈ cs.flatMap (·.names), p i := by
  obtain ⟨params, hparams, h⟩ := Ends.bind_iff.1 h
  have hnames := names_paramsAfter (by simp) hparams
  split at h
  · obtain rfl := Ends.pure_iff.1 h
    exact hnames
  · simp only [Ends.bind_iff, Ends.ident_iff, Ends.pure_iff] at h
    obtain ⟨_, ⟨hmodel, rfl⟩, _, ⟨hrequest, rfl⟩, rfl⟩ := h
    rw [List.flatMap_append, List.forall_mem_append]
    refine ⟨hnames, ?_⟩
    simp [ContractParam.names, CodeType.models, hmodel, hrequest]

theorem names_contractMethod {k : ContractMethod} (h : Ends p (makeContractMethod o) k) :
    ∀ i ∈ k.names, p i := by
  simp only [makeContractMethod, Ends.bind_iff, Ends.ident_iff, Ends.pure_iff] at h
  obtain ⟨_, ⟨hname, rfl⟩, _, ⟨hresponse, rfl⟩, params, hparams, rfl⟩ := h
  simp only [ContractMethod.names, List.forall_mem_cons]
  exact ⟨hname, hresponse, names_contractParams hparams⟩

end Contracts

/-! ## Handlers -/

section Handlers

variable {p : String → Prop} {refs : RefTable} {o : Operation}

theorem names_formRead {multipart : Bool} {t : Descriptor} {f : FormRead}
    (h : Ends p (makeFormRead refs multipart t) f) : ∀ i ∈ f.names, p i := by
  simp only [makeFormRead, Ends.bind_iff, Ends.ident_iff, Ends.pure_iff] at h
  obtain ⟨⟨name, ps⟩, -, _, ⟨hrecord, rfl⟩, fields, hfields, rfl⟩ := h
  refine List.forall_mem_cons.2 ⟨hrecord, names_mapM hfields fun q g hg => ?_⟩
  simp only [makeFieldRead, Ends.bind_iff, Ends.ident_iff, Ends.quiet_iff] at hg
  obtain ⟨_, ⟨hname, rfl⟩, _, ⟨hlocal, rfl⟩, hread⟩ := hg
  obtain ⟨hfield, -⟩ := fieldRead_eq_ok hread
  simpa [FieldRead.binding, hfield] using ⟨hname, hlocal⟩

theorem names_bodyArm {media : Media} {t : Descriptor} {a : BodyArm}
    (h : Ends p (makeBodyArm refs media t) a) :
    ∀ i ∈ a.media.tag :: a.member :: a.read.names, p i := by
  simp only [List.forall_mem_cons]
  cases media
  case json | xml =>
    simp only [makeBodyArm, Ends.bind_iff, Ends.ident_iff, Ends.pure_iff] at h
    obtain ⟨_, ⟨htag, rfl⟩, _, ⟨hmember, rfl⟩, _, rfl, rfl⟩ := h
    exact ⟨htag, hmember, List.forall_mem_nil p⟩
  case form | multipart =>
    simp only [makeBodyArm, Ends.bind_iff, Ends.ident_iff, Ends.map_iff, Ends.pure_iff] at h
    obtain ⟨_, ⟨htag, rfl⟩, _, ⟨hmember, rfl⟩, _, ⟨f, hf, rfl⟩, rfl⟩ := h
    exact ⟨htag, hmember, names_formRead hf⟩

theorem names_bodyDispatch {b : RequestBody} {d : BodyDispatch}
    (h : Ends p (makeBodyDispatch refs b) d) : ∀ i ∈ d.names, p i := by
  simp only [makeBodyDispatch, Ends.bind_iff, Ends.ident_iff, Ends.pure_iff] at h
  obtain ⟨_, ⟨hclass, rfl⟩, arms, harms, rfl⟩ := h
  exact List.forall_mem_cons.2 ⟨hclass, names_mapM harms fun _ _ => names_bodyArm⟩

/-- A status is taken from something that the response carries. -/
theorem names_statusSource {s : Status} {v : Variant} {source : StatusSource}
    (h : statusSource o s v = .ok source) : source.names ⊆ v.members.map memberIdent := by
  unfold statusSource at h
  split at h
  · obtain rfl := Except.ok.inj h
    exact List.nil_subset _
  · rename_i body hbody
    obtain rfl := Except.ok.inj h
    simp [StatusSource.names, Variant.members, hbody]
  · cases h

/-- How what a response carries is written. -/
def bodyWrite : Payload → BodyWrite
  | .none => .empty
  | .body t true => .file (memberIdent t)
  | .body t false => .json (memberIdent t)

theorem names_dispatchArm {s : Status} {v : Variant} {a : DispatchArm}
    (h : Ends p (makeDispatchArm o s v) a) : ∀ i ∈ a.names, p i := by
  obtain ⟨_, htag, h⟩ := Ends.bind_iff.1 h
  obtain ⟨_, hbindings, h⟩ := Ends.bind_iff.1 h
  obtain ⟨status, hstatus, h⟩ := Ends.bind_iff.1 h
  obtain ⟨hname, rfl⟩ := Ends.ident_iff.1 htag
  obtain ⟨hmembers, rfl⟩ := Ends.idents_iff.1 hbindings
  have hcarried : ∀ i ∈ v.members.map memberIdent, p i := List.forall_mem_map.2 hmembers
  have hsource : ∀ i ∈ status.names, p i :=
    fun i hi => hcarried i (names_statusSource (Ends.quiet_iff.1 hstatus) hi)
  obtain ⟨name, headers?, payload⟩ := v
  have hbody : ∀ i ∈ (bodyWrite payload).names, p i := by
    rcases payload with _ | ⟨t, _ | _⟩
    · exact List.forall_mem_nil p
    all_goals
      exact List.forall_mem_singleton.2 (hmembers t (by simp [Variant.members, Variant.body?]))
  simp only [DispatchArm.names, List.cons_append, List.forall_mem_cons, List.forall_mem_append]
  cases headers? with
  | none =>
      simp only [Ends.bind_iff, Ends.pure_iff] at h
      obtain ⟨_, rfl, rfl⟩ := h
      exact ⟨hname, ⟨⟨hcarried, hsource⟩, List.forall_mem_nil p⟩, hbody⟩
  | some t =>
      simp only [makeHeaderWrites, Ends.bind_iff, Ends.ident_iff, Ends.quiet_iff,
        Ends.pure_iff] at h
      obtain ⟨_, ⟨_, ⟨hbinding, rfl⟩, ps, -, hwrites⟩, rfl⟩ := h
      refine ⟨hname, ⟨⟨hcarried, hsource⟩, names_mapM hwrites fun q w hw => ?_⟩, hbody⟩
      simp only [Ends.bind_iff, Ends.ident_iff, Ends.pure_iff] at hw
      obtain ⟨_, ⟨hfield, rfl⟩, rfl⟩ := hw
      simpa using ⟨hbinding, hfield⟩

/-- The names of a handler are those of its parts. -/
theorem Handler.forall_names {h : Handler} (hident : p h.ident) (hresponse : p h.response)
    (hreads : ∀ r ∈ h.reads, p r.binding) (harguments : ∀ i ∈ h.arguments, p i)
    (hbody : ∀ b, h.body = some b → ∀ i ∈ b.names, p i)
    (harms : ∀ i ∈ h.arms.flatMap (·.names), p i) :
    ∀ i ∈ h.names, p i := by
  simp only [Handler.names, List.cons_append, List.forall_mem_cons, List.forall_mem_append,
    List.forall_mem_map, List.forall_mem_flatMap, Option.mem_toList]
  exact ⟨hident, hresponse, ⟨⟨hreads, harguments⟩, hbody⟩, List.forall_mem_flatMap.1 harms⟩

theorem names_handler {h : Handler} (hh : Ends p (makeHandler refs o) h) : ∀ i ∈ h.names, p i := by
  obtain ⟨_, hident, hh⟩ := Ends.bind_iff.1 hh
  obtain ⟨params, -, hh⟩ := Ends.bind_iff.1 hh
  obtain ⟨reads, hreads, hh⟩ := Ends.bind_iff.1 hh
  obtain ⟨_, hidents, hh⟩ := Ends.bind_iff.1 hh
  obtain ⟨hname, rfl⟩ := Ends.ident_iff.1 hident
  obtain ⟨harguments, rfl⟩ := Ends.idents_iff.1 hidents
  have hbindings : ∀ r ∈ reads, p r.binding := by
    intro r hr
    obtain ⟨q, -, hq⟩ := exists_of_mem_right (Ends.mapM_iff.1 hreads) hr
    simp only [makeParamRead, Ends.bind_iff, Ends.ident_iff, Ends.quiet_iff, Ends.pure_iff] at hq
    obtain ⟨_, ⟨hbinding, rfl⟩, scalar, -, rfl⟩ := hq
    exact hbinding
  split at hh
  · simp only [Ends.bind_iff, Ends.ident_iff, Ends.pure_iff] at hh
    obtain ⟨_, rfl, _, ⟨hresponse, rfl⟩, arms, harms, rfl⟩ := hh
    exact Handler.forall_names hname hresponse hbindings (List.forall_mem_map.2 harguments)
      (fun _ hb => absurd hb (by simp)) (names_mapM harms fun _ _ => names_dispatchArm)
  · simp only [Ends.bind_iff, Ends.ident_iff, Ends.map_iff, Ends.pure_iff] at hh
    obtain ⟨_, ⟨d, hd, rfl⟩, _, ⟨hresponse, rfl⟩, arms, harms, rfl⟩ := hh
    refine Handler.forall_names hname hresponse hbindings (List.forall_mem_map.2 harguments)
      (fun b hb => ?_) (names_mapM harms fun _ _ => names_dispatchArm)
    obtain rfl := Option.some.inj hb
    exact names_bodyDispatch hd

end Handlers

/-! ## Clients -/

section Clients

variable {p : String → Prop} {refs : RefTable} {o : Operation}

theorem names_encodeArm {media : Media} {t : Descriptor} {a : EncodeArm}
    (h : Ends p (makeEncodeArm refs media t) a) :
    ∀ i ∈ a.media.tag :: a.member :: a.send.names, p i := by
  simp only [List.forall_mem_cons]
  cases media
  case json | xml | form =>
    simp only [makeEncodeArm, Ends.bind_iff, Ends.ident_iff, Ends.pure_iff] at h
    obtain ⟨_, ⟨htag, rfl⟩, _, ⟨hmember, rfl⟩, _, rfl, rfl⟩ := h
    exact ⟨htag, hmember, List.forall_mem_nil p⟩
  case multipart =>
    simp only [makeEncodeArm, Ends.bind_iff, Ends.ident_iff, Ends.quiet_iff, Ends.pure_iff] at h
    obtain ⟨_, ⟨htag, rfl⟩, _, ⟨hmember, rfl⟩, r, -, _, -, parts, hparts, _, rfl, rfl⟩ := h
    refine ⟨htag, hmember, List.forall_mem_map.2 fun w hw => ?_⟩
    obtain ⟨q, -, hq⟩ := exists_of_mem_right (Ends.mapM_iff.1 hparts) hw
    simp only [Ends.bind_iff, Ends.ident_iff, Ends.pure_iff] at hq
    obtain ⟨_, ⟨hfield, rfl⟩, rfl⟩ := hq
    exact hfield

theorem names_bodyEncode {b : RequestBody} {d : BodyEncode}
    (h : Ends p (makeBodyEncode refs b) d) : ∀ i ∈ d.names, p i := by
  simp only [makeBodyEncode, Ends.bind_iff, Ends.ident_iff, Ends.pure_iff] at h
  obtain ⟨_, ⟨hclass, rfl⟩, arms, harms, rfl⟩ := h
  exact List.forall_mem_cons.2 ⟨hclass, names_mapM harms fun _ _ => names_encodeArm⟩

theorem names_headerReads {v : Variant} {t : Descriptor} {r : String × CodeType × List HeaderRead}
    (h : Ends p (makeHeaderReads refs v t) r) :
    ∀ i ∈ r.1 :: r.2.1.models ++ r.2.2.map (·.field), p i := by
  simp only [makeHeaderReads, Ends.bind_iff, Ends.ident_iff, Ends.type_iff, Ends.quiet_iff,
    Ends.pure_iff] at h
  obtain ⟨_, ⟨hbinding, rfl⟩, type, ⟨-, hmodels⟩, ps, -, fields, hfields, rfl⟩ := h
  simp only [List.cons_append, List.forall_mem_cons, List.forall_mem_append, List.forall_mem_map]
  refine ⟨hbinding, hmodels, fun w hw => ?_⟩
  obtain ⟨q, -, hq⟩ := exists_of_mem_right (Ends.mapM_iff.1 hfields) hw
  simp only [makeHeaderRead, Ends.bind_iff, Ends.ident_iff, Ends.quiet_iff] at hq
  obtain ⟨_, ⟨hfield, -⟩, hread⟩ := hq
  rwa [(headerRead_eq_ok hread).1]

theorem names_responseRead {payload : Payload} {r : ResponseRead}
    (h : Ends p (makeResponseRead refs payload) r) : ∀ i ∈ r.names, p i := by
  rcases payload with _ | ⟨t, _ | _⟩
  · obtain rfl := Ends.pure_iff.1 h
    exact List.forall_mem_nil p
  · simp only [makeResponseRead, Ends.bind_iff, Ends.ident_iff, Ends.type_iff, Ends.pure_iff] at h
    obtain ⟨_, ⟨hbinding, rfl⟩, type, ⟨-, hmodels⟩, rfl⟩ := h
    exact List.forall_mem_cons.2 ⟨hbinding, hmodels⟩
  · simp only [makeResponseRead, Ends.bind_iff, Ends.ident_iff, Ends.pure_iff] at h
    obtain ⟨_, ⟨hbinding, rfl⟩, rfl⟩ := h
    exact List.forall_mem_singleton.2 hbinding

theorem names_decodeArm {s : Status} {v : Variant} {a : DecodeArm}
    (h : Ends p (makeDecodeArm refs s v) a) : ∀ i ∈ a.names, p i := by
  obtain ⟨name, headers?, payload⟩ := v
  obtain ⟨_, htag, h⟩ := Ends.bind_iff.1 h
  obtain ⟨hname, rfl⟩ := Ends.ident_iff.1 htag
  simp only [DecodeArm.names, List.cons_append, List.forall_mem_cons, List.forall_mem_append]
  cases headers? with
  | none =>
      simp only [Ends.bind_iff, Ends.idents_iff, Ends.pure_iff] at h
      obtain ⟨_, rfl, body, hbody, _, ⟨hmembers, rfl⟩, rfl⟩ := h
      exact ⟨hname, ⟨List.forall_mem_map.2 hmembers, List.forall_mem_nil p⟩,
        names_responseRead hbody⟩
  | some t =>
      simp only [Ends.bind_iff, Ends.map_iff, Ends.idents_iff, Ends.pure_iff] at h
      obtain ⟨_, ⟨r, hr, rfl⟩, body, hbody, _, ⟨hmembers, rfl⟩, rfl⟩ := h
      refine ⟨hname, ⟨List.forall_mem_map.2 hmembers, ?_⟩, names_responseRead hbody⟩
      simpa using names_headerReads hr

/-- The names of a client method are those of its parts. -/
theorem ClientMethod.forall_names {k : ClientMethod} (hident : p k.ident)
    (hmethod : p k.method.name)
    (hresponse : p k.response) (hparams : ∀ i ∈ k.params.flatMap (·.names), p i)
    (hsent : ∀ q ∈ k.sent, p q.ident) (hbody : ∀ b, k.body = some b → ∀ i ∈ b.names, p i)
    (harms : ∀ i ∈ k.arms.flatMap (·.names), p i) : ∀ i ∈ k.names, p i := by
  simp only [ClientMethod.names, List.cons_append, List.forall_mem_cons, List.forall_mem_append]
  refine ⟨hident, hmethod, hresponse, ⟨⟨hparams, List.forall_mem_map.2 hsent⟩, ?_⟩, harms⟩
  exact List.forall_mem_flatMap.2 fun b hb => hbody b (Option.mem_toList.1 hb)

/-- What is sent of the parameters has the identifiers of arguments. -/
theorem names_sent {cs : List ContractParam} (h : Ends p (makeContractParams o) cs) :
    ∀ q ∈ o.params, p (Naming.fieldIdent q.name) := by
  intro q hq
  have hcs := h.2
  rw [result_makeContractParams] at hcs
  obtain ⟨new, rfl, hnew, -⟩ := contractParams_eq_ok hcs
  obtain ⟨c, hc, scalar, -, rfl⟩ := exists_of_mem_right hnew.flip hq
  have hnames := List.forall_mem_flatMap.1 (names_contractParams h) _ (List.mem_append_left _ hc)
  exact hnames _ List.mem_cons_self

theorem names_clientMethod {k : ClientMethod} (h : Ends p (makeClientMethod refs o) k) :
    ∀ i ∈ k.names, p i := by
  obtain ⟨_, hident, h⟩ := Ends.bind_iff.1 h
  obtain ⟨_, hverb, h⟩ := Ends.bind_iff.1 h
  obtain ⟨_, hclass, h⟩ := Ends.bind_iff.1 h
  obtain ⟨params, hparams, h⟩ := Ends.bind_iff.1 h
  obtain ⟨hname, rfl⟩ := Ends.ident_iff.1 hident
  obtain ⟨hmethod, -⟩ := Ends.ident_iff.1 hverb
  obtain ⟨hresponse, rfl⟩ := Ends.ident_iff.1 hclass
  have hnames := names_contractParams hparams
  have hsent := names_sent hparams
  split at h
  · simp only [Ends.bind_iff, Ends.pure_iff] at h
    obtain ⟨_, rfl, arms, harms, rfl⟩ := h
    exact ClientMethod.forall_names hname hmethod hresponse hnames
      (List.forall_mem_map.2 hsent) (fun _ hb => nomatch hb)
      (names_mapM harms fun _ _ => names_decodeArm)
  · simp only [Ends.bind_iff, Ends.map_iff, Ends.pure_iff] at h
    obtain ⟨_, ⟨d, hd, rfl⟩, arms, harms, rfl⟩ := h
    refine ClientMethod.forall_names hname hmethod hresponse hnames
      (List.forall_mem_map.2 hsent) (fun b hb => ?_)
      (names_mapM harms fun _ _ => names_decodeArm)
    obtain rfl := Option.some.inj hb
    exact names_bodyEncode hd

end Clients

/-! ## Models -/

section Models

variable {p : String → Prop} {refs : RefTable}

theorem names_record {name : String} {ps : List Property} {shape : ModelShape}
    (h : Ends p (makeRecord refs name ps) shape) : ∀ i ∈ shape.names, p i := by
  obtain ⟨_, -, h⟩ := Ends.bind_iff.1 h
  split at h
  · obtain rfl := Ends.pure_iff.1 h
    exact List.forall_mem_nil p
  · obtain ⟨fields, hfields, rfl⟩ := Ends.map_iff.1 h
    refine names_mapM hfields fun q f hf => ?_
    simp only [makeField, Ends.bind_iff, Ends.ident_iff, Ends.type_iff, Ends.pure_iff] at hf
    obtain ⟨_, ⟨hname, rfl⟩, type, ⟨-, hmodels⟩, rfl⟩ := hf
    exact List.forall_mem_cons.2 ⟨hname, hmodels⟩

theorem names_sum {name : String} {vs : List (String × List Descriptor)} {shape : ModelShape}
    (h : Ends p (makeSum refs name vs) shape) : ∀ i ∈ shape.names, p i := by
  obtain ⟨_, -, h⟩ := Ends.bind_iff.1 h
  obtain ⟨variants, hvariants, rfl⟩ := Ends.map_iff.1 h
  refine names_mapM hvariants fun v w hw => ?_
  simp only [makeSumVariant, Ends.bind_iff, Ends.ident_iff, Ends.pure_iff] at hw
  obtain ⟨_, ⟨htag, rfl⟩, members, hmembers, rfl⟩ := hw
  refine List.forall_mem_cons.2 ⟨htag, names_mapM hmembers fun t e he => ?_⟩
  simp only [makeMember, Ends.bind_iff, Ends.ident_iff, Ends.type_iff, Ends.pure_iff] at he
  obtain ⟨_, ⟨hmember, rfl⟩, type, ⟨-, hmodels⟩, rfl⟩ := he
  exact List.forall_mem_cons.2 ⟨hmember, hmodels⟩

theorem names_of_makeModel? {t : Descriptor} {name : String} {make : Making ModelShape}
    {shape : ModelShape} (hmake : makeModel? refs t = some (name, make)) (h : Ends p make shape) :
    ∀ i ∈ shape.names, p i := by
  unfold makeModel? at hmake
  split at hmake
  · obtain ⟨rfl, rfl⟩ := Prod.mk.inj (Option.some.inj hmake)
    exact names_record h
  · obtain ⟨rfl, rfl⟩ := Prod.mk.inj (Option.some.inj hmake)
    exact names_record h
  · obtain ⟨rfl, rfl⟩ := Prod.mk.inj (Option.some.inj hmake)
    exact names_sum h
  · cases hmake

theorem names_modelsAfter {ts : List Descriptor} {done ms : List Model}
    (hdone : ∀ r ∈ done, ∀ i ∈ r.shape.names, p i) (h : Ends p (makeModelsAfter refs done ts) ms) :
    ∀ r ∈ ms, ∀ i ∈ r.shape.names, p i := by
  induction ts generalizing done with
  | nil =>
      obtain rfl := Ends.pure_iff.1 h
      exact hdone
  | cons t ts ih =>
      rw [makeModelsAfter] at h
      split at h
      · exact ih hdone h
      · rename_i name make hmake
        split at h
        · exact ih hdone h
        · obtain ⟨shape, hshape, h⟩ := Ends.bind_iff.1 h
          refine ih ?_ h
          rw [List.forall_mem_append]
          exact ⟨hdone, List.forall_mem_singleton.2 (names_of_makeModel? hmake hshape)⟩

end Models

/-! ## Emitters -/

/-- Emitters make what they print, if they come to their end. -/
structure PrintedMade (m : Metadata) : Prop where
  /-- The names of the contract and its methods. -/
  contract : ∀ ks, m.operations.mapM contractMethod = .ok ks →
    contractName m :: ks.flatMap (·.names) ⊆ (makeContract m).made
  /-- The names of the controller, the routes and the handlers. -/
  controller : ∀ hs, m.operations.mapM (handler m.refs) = .ok hs →
    contractName m :: controllerName m :: m.operations.map (·.method.name) ++ hs.flatMap (·.names) ⊆
      (makeController m).made
  /-- The names of the client and its methods. -/
  client : ∀ ks, m.operations.mapM (clientMethod m.refs) = .ok ks →
    clientName m :: ks.flatMap (·.names) ⊆ (makeClient m).made
  /-- The names of the models and their modules. -/
  models : ∀ ms, (models m).1 = .ok ms → ms.flatMap (·.names) ⊆ (makeModels m).made

section Emitters

variable {p : String → Prop} {m : Metadata}

/-- What is put together step by step has the names that it has at once. -/
theorem names_emitted {α β : Type} {as : List α} {bs cs : List β} {f : α → Making β}
    {g : α → Emitting β} {names : β → List String} (h : Ends p (as.mapM f) cs)
    (hg : as.mapM g = .ok bs) (hfg : ∀ a, (f a).result = g a)
    (hf : ∀ a b, Ends p (f a) b → ∀ i ∈ names b, p i) : ∀ i ∈ bs.flatMap names, p i := by
  have hresult := h.2
  rw [Making.result_mapM, funext hfg, hg] at hresult
  obtain rfl := Except.ok.inj hresult
  exact names_mapM h hf

/-- Nothing is printed that was not made an identifier before. -/
theorem printedMade (hcheck : checkNames m = .ok ()) : PrintedMade m := by
  constructor
  case contract =>
    intro ks hks
    obtain ⟨s, hs⟩ := exists_contractModule_of_methods hcheck hks
    obtain ⟨_, -, h⟩ := Ends.bind_iff.1 (Ends.of_result ((result_makeContract m).trans hs))
    obtain ⟨_, hname, h⟩ := Ends.bind_iff.1 h
    obtain ⟨_, hmethods, -⟩ := Ends.bind_iff.1 h
    have hnames := names_emitted hmethods hks result_makeContractMethod fun _ _ =>
      names_contractMethod
    exact List.forall_mem_cons.2 ⟨(Ends.ident_iff.1 hname).1, hnames⟩
  case controller =>
    intro hs hhs
    obtain ⟨s, hs⟩ := exists_controllerModule_of_handlers hcheck hhs
    obtain ⟨_, -, h⟩ := Ends.bind_iff.1 (Ends.of_result ((result_makeController m).trans hs))
    obtain ⟨_, hcontract, h⟩ := Ends.bind_iff.1 h
    obtain ⟨_, hcontroller, h⟩ := Ends.bind_iff.1 h
    obtain ⟨_, hhandlers, h⟩ := Ends.bind_iff.1 h
    obtain ⟨_, hmethods, -⟩ := Ends.bind_iff.1 h
    have hnames := names_emitted hhandlers hhs (result_makeHandler m.refs) fun _ _ => names_handler
    refine List.forall_mem_cons.2 ⟨(Ends.ident_iff.1 hcontract).1, List.forall_mem_cons.2
      ⟨(Ends.ident_iff.1 hcontroller).1, List.forall_mem_append.2 ⟨?_, hnames⟩⟩⟩
    exact List.forall_mem_map.2 (Ends.idents_iff.1 hmethods).1
  case client =>
    intro ks hks
    obtain ⟨s, hs⟩ := exists_clientModule_of_methods hcheck hks
    obtain ⟨_, -, h⟩ := Ends.bind_iff.1 (Ends.of_result ((result_makeClient m).trans hs))
    obtain ⟨_, hname, h⟩ := Ends.bind_iff.1 h
    obtain ⟨_, hmethods, -⟩ := Ends.bind_iff.1 h
    have hnames := names_emitted hmethods hks (result_makeClientMethod m.refs)
      fun _ _ => names_clientMethod
    exact List.forall_mem_cons.2 ⟨(Ends.ident_iff.1 hname).1, hnames⟩
  case models =>
    intro ms hms
    have hmodules := modelModules_eq_ok.2 ⟨ms, hms, rfl⟩
    obtain ⟨_, -, h⟩ := Ends.bind_iff.1 (Ends.of_result ((result_makeModels m).trans hmodules))
    obtain ⟨_, hupload, h⟩ := Ends.bind_iff.1 h
    obtain ⟨rs, hmodels, h⟩ := Ends.bind_iff.1 h
    obtain ⟨_, hexports, -⟩ := Ends.bind_iff.1 h
    obtain ⟨-, rfl⟩ := Ends.ident_iff.1 hupload
    have hrs : rs = ms :=
      Except.ok.inj (hmodels.2.symm.trans ((result_makeModelsAfter hcheck).trans hms))
    rw [hrs] at hmodels hexports
    have hshapes := names_modelsAfter (by simp [ModelShape.names]) hmodels
    refine List.forall_mem_flatMap.2 fun r hr => ?_
    obtain ⟨_, -, hexport⟩ := exists_of_mem_right (Ends.mapM_iff.1 hexports).flip hr
    obtain ⟨_, hmodule, hname⟩ := Ends.bind_iff.1 hexport
    exact List.forall_mem_cons.2 ⟨(Ends.ident_iff.1 hmodule).1,
      List.forall_mem_cons.2 ⟨(Ends.ident_iff.1 hname).1, hshapes r hr⟩⟩

end Emitters

end Emit
end ApiContract
