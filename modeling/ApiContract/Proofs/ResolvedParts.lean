import ApiContract.Proofs.Operations

/-!
# Resolution, part by part

**Input:** the runs of the parts of a document.

Every lemma gives the run of one part from the runs of what it is made of.  The run of a document is
put together from them along the document, and no definition has to be opened for it.  Scalars leave
the state of resolution, pointers may change it.

**Results:**

* `run_named_record`, `run_propertiesOf_cons`: a record is resolved property by property;
* `run_parameters_of`: parameters with scalars are resolved one after another;
* `run_requestBody_of`: a request body has the contents that are kept;
* `run_responseVariant_json`, `run_responseVariant_file`, `run_responseVariant_bare`: the forms of a
  response;
* `run_responseVariants_cons`: responses are resolved one after another;
* `run_operation_of`: an operation is resolved part by part.
-/

namespace ApiContract
namespace Resolve

/-- Whatever stands in a list is resolved one after another. -/
theorem run_mapM_cons {α β : Type} {f : α → Resolving β} {a : α} {as : List α} {b : β} {bs : List β}
    {σ σ' σ'' : Progress} (h : (f a).run σ = .ok (b, σ'))
    (hrest : (as.mapM f).run σ' = .ok (bs, σ'')) :
    ((a :: as).mapM f).run σ = .ok (b :: bs, σ'') := by
  rw [List.mapM_cons]
  refine run_bind_eq_ok.2 ⟨b, σ', h, ?_⟩
  exact run_bind_eq_ok.2 ⟨bs, σ'', hrest, rfl⟩

/-! ## Schemas -/

section Schemas

variable {d : Document} {path : List String} {context name : String} {s : Document.Schema}
  {q : Primitive} {t : Descriptor} {σ σ' σ'' : Progress}

theorem run_typeOf_scalar (href : s.ref = none) (hc : s.isComposition = false)
    (ht : scalarOf? s = some t) : (typeOf d path s context).run σ = .ok (t, σ) := by
  rw [typeOf, href]
  simp only [hc, ht, Bool.false_eq_true, if_false]
  exact run_pure t σ

theorem run_primitiveOf?_scalar (href : s.ref = none) (hc : s.isComposition = false)
    (ht : scalarOf? s = some (.primitive q)) :
    (primitiveOf? d (some s) context).run σ = .ok (some q, σ) := by
  refine run_bind_eq_ok.2 ⟨.primitive q, σ, run_typeOf_scalar href hc ht, ?_⟩
  have hr : σ.table.resolve? (.primitive q) = some (.primitive q) :=
    RefTable.follow?_of_pointer?_eq_none σ.table rfl _
  rw [run_get_bind, hr]
  rfl

theorem run_typeOf_ref {pointer : String} (href : s.ref = some pointer)
    (hrun : (reference d path pointer).run σ = .ok (t, σ')) :
    (typeOf d path s context).run σ = .ok (t, σ') := by
  rw [typeOf, href]
  exact hrun

theorem run_named_ref {pointer : String} (href : s.ref = some pointer)
    (hrun : (reference d path pointer).run σ = .ok (t, σ')) :
    (named d path s name).run σ = .ok (t, σ') := by
  have hplain : (s.ref.isSome || s.isComposition) = true := by simp [href]
  rw [named, if_pos hplain]
  exact run_typeOf_ref href hrun

theorem run_named_scalar (hplain : (s.ref.isSome || s.isComposition) = false)
    (harray : s.type ≠ some "array") (hobject : isObject s = false) (ht : scalarOf? s = some t) :
    (named d path s name).run σ = .ok (t, σ) := by
  obtain ⟨href, hc⟩ := Bool.or_eq_false_iff.1 hplain
  rw [named, if_neg (Bool.eq_false_iff.1 hplain), if_neg harray,
    if_neg (Bool.eq_false_iff.1 hobject)]
  exact run_typeOf_scalar (Option.isSome_eq_false_iff.1 href |> Option.isNone_iff_eq_none.1) hc ht

/-- An array in place is resolved by resolving its items. -/
theorem run_typeOf_array {item : Document.Schema} (href : s.ref = none)
    (hc : s.isComposition = false) (hscalar : scalarOf? s = none) (harray : s.type = some "array")
    (hitem : s.items = some item)
    (hrun : (typeOf d path item (context ++ "Item")).run σ = .ok (t, σ')) :
    (typeOf d path s context).run σ = .ok (.array none t, σ') := by
  rw [typeOf, href]
  simp only [hc, hscalar, harray, Bool.false_eq_true, if_false, if_true]
  exact run_arrayOf_eq_ok.2 ⟨item, t, hitem, rfl, hrun⟩

theorem run_propertiesOf_nil {required : List String} :
    (propertiesOf d path required context []).run σ = .ok ([], σ) := by
  rw [propertiesOf]
  exact run_pure [] σ

/-- Properties are resolved one after another. -/
theorem run_propertiesOf_cons {required : List String} {rest : List (String × Document.Schema)}
    {ps : List Property}
    (hs : (typeOf d path s (context ++ Naming.pascalCase name)).run σ = .ok (t, σ'))
    (hrest : (propertiesOf d path required context rest).run σ' = .ok (ps, σ'')) :
    (propertiesOf d path required context ((name, s) :: rest)).run σ =
      .ok ({
        name
        type := t
        format := s.format
        required := required.contains name } :: ps, σ'') := by
  rw [propertiesOf]
  refine run_bind_eq_ok.2 ⟨t, σ', hs, ?_⟩
  exact run_bind_eq_ok.2 ⟨ps, σ'', hrest, rfl⟩

/-- A record keeps the name of the pointer that stands for it. -/
theorem run_named_record {ps : List Property} (hplain : (s.ref.isSome || s.isComposition) = false)
    (harray : s.type ≠ some "array") (hobject : isObject s = true)
    (hps : (propertiesOf d path s.required name s.properties).run σ = .ok (ps, σ')) :
    (named d path s name).run σ = .ok (record (some name) name ps, σ') := by
  rw [named, if_neg (Bool.eq_false_iff.1 hplain), if_neg harray, if_pos hobject]
  exact run_bind_eq_ok.2 ⟨ps, σ', hps, rfl⟩

end Schemas

/-! ## Parameters -/

section Parameters

variable {d : Document} {operationId : String} {item : Document.PathItem} {o : Document.Operation}
  {p : Document.Parameter} {σ : Progress}

/-- A parameter with a scalar. -/
theorem run_parameter_scalar {s : Document.Schema} {location : Location} {q : Primitive}
    (hlocation : Location.ofName? p.location = some location) (hschema : p.schema = some s)
    (href : s.ref = none) (hc : s.isComposition = false)
    (ht : scalarOf? s = some (.primitive q)) :
    (parameter d operationId p).run σ =
      .ok ({
        name := p.name
        location
        property := {
          name := p.name
          type := .primitive q
          required := p.required || location == .path } }, σ) := by
  refine run_bind_eq_ok.2 ⟨location, σ, run_orRefuse_eq_ok.2 ⟨hlocation, rfl⟩, ?_⟩
  rw [hschema]
  exact run_bind_eq_ok.2 ⟨some q, σ, run_primitiveOf?_scalar href hc ht, rfl⟩

/-- Parameters in place are their own declarations. -/
theorem run_followed_inline (ps : List Document.Parameter) :
    ((ps.map Document.ParameterEntry.inline).mapM
      fun e => (followParam d e : Resolving _)).run σ = .ok (ps, σ) := by
  induction ps with
  | nil => rfl
  | cons p ps ih => exact run_mapM_cons rfl ih

/-- Parameters with scalars are resolved one after another. -/
theorem run_parameters_of (ps : List Document.Parameter) {rs : List Param}
    (hitem : item.parameters = []) (ho : o.parameters = ps.map .inline)
    (hmerged : mergeParameters ps = ps.map fun p => ((p.name, p.location), p))
    (hparams : List.Forall₂ (fun p r => (parameter d operationId p).run σ = .ok (r, σ)) ps rs) :
    (parameters d operationId item o).run σ = .ok (rs, σ) := by
  rw [parameters, hitem, ho, List.nil_append]
  refine run_bind_eq_ok.2 ⟨ps, σ, run_followed_inline ps, ?_⟩
  rw [hmerged]
  clear hmerged ho
  induction hparams with
  | nil => rfl
  | cons hp _ ih => exact run_mapM_cons hp ih

end Parameters

/-! ## Request bodies -/

section Requests

variable {d : Document} {operationId pointer mime : String} {o : Document.Operation}
  {c : Document.MediaContent} {rest : Document.Content} {done all : List (Media × Descriptor)}
  {media : Media} {t : Descriptor} {σ σ' σ'' : Progress}

/-- A content with a pointer is kept under its media type. -/
theorem run_requestContents_cons (hmedia : Media.ofMime? (essence mime) = some media)
    (hschema : c.schema.bind (·.ref) = some pointer)
    (hrun : (reference d [] pointer).run σ = .ok (t, σ'))
    (hrest : (requestContents d operationId (addContent media t done) rest).run σ' =
      .ok (all, σ'')) :
    (requestContents d operationId done ((mime, c) :: rest)).run σ = .ok (all, σ'') := by
  rw [requestContents, hmedia]
  dsimp only
  rw [hschema]
  exact run_bind_eq_ok.2 ⟨t, σ', hrun, hrest⟩

/-- An operation may be without a request body. -/
theorem run_requestBody_none (ho : o.requestBody = none) :
    (requestBody d operationId o).run σ = .ok (none, σ) := by
  rw [requestBody, ho]
  exact run_pure none σ

/-- A request body has the contents that are kept, if there is one. -/
theorem run_requestBody_of (name : String) {required : Bool} {content : Document.Content}
    (ho : o.requestBody = some ⟨required, content⟩)
    (hall : (requestContents d operationId [] content).run σ = .ok (all, σ'))
    (hne : all.isEmpty = false) (hname : Naming.typeName? operationId = some name) :
    (requestBody d operationId o).run σ = .ok (some {
      className := name ++ "Request"
      required
      content := all }, σ') := by
  rw [requestBody, ho]
  refine run_bind_eq_ok.2 ⟨all, σ', hall, ?_⟩
  rw [if_neg (Bool.eq_false_iff.1 hne)]
  exact run_bind_eq_ok.2 ⟨name, σ', run_typeName_eq_ok.2 ⟨hname, rfl⟩, rfl⟩

end Requests

/-! ## Responses -/

section Responses

variable {d : Document} {operationId className name pointer : String} {status : Status}
  {s : Document.Schema} {r : Document.Response} {t : Descriptor} {headers : Option Descriptor}
  {σ σ' σ'' : Progress}

/-- The only content of a response is its JSON. -/
theorem schema_of_json {c : Document.MediaContent} (h : r.content = [("application/json", c)]) :
    (jsonContent? r.content).bind (·.schema) = c.schema := by
  have hmedia : (essence "application/json" == Media.json.mime) = true := by decide +kernel
  simp only [h, jsonContent?, List.find?_cons, hmedia]
  rfl

theorem run_responseHeaders_none (hr : r.headers = []) :
    (responseHeaders d operationId className name r).run σ = .ok (none, σ) := by
  rw [responseHeaders, hr]
  exact run_pure none σ

/-- A header with a scalar is a record with one field. -/
theorem run_responseHeaders_scalar {header : String} {required : Bool} {about : Option String}
    {q : Primitive} (hr : r.headers = [(header, ⟨required, some s, about⟩)])
    (href : s.ref = none) (hc : s.isComposition = false) (ht : scalarOf? s = some (.primitive q)) :
    (responseHeaders d operationId className name r).run σ =
      .ok (some (.object (some (className ++ name ++ "Headers"))
        [{ name := header, type := .primitive q, required }]), σ) := by
  rw [responseHeaders, hr]
  refine run_bind_eq_ok.2 ⟨[{ name := header, type := .primitive q, required }], σ, ?_, rfl⟩
  exact run_bind_eq_ok.2 ⟨some q, σ, run_primitiveOf?_scalar href hc ht, rfl⟩

/-- A body behind a pointer that stands for a record or an array is named by the pointer. -/
theorem run_jsonBody_of_named (hr : s.ref = some pointer)
    (hrun : (reference d [] pointer).run σ = .ok (.ref pointer, σ'))
    (hnames : (σ'.table.resolve? (.ref pointer)).any namesResponse = true)
    (hname : Naming.typeName? (Naming.simpleName pointer) = some name) :
    (jsonBody d operationId className status s).run σ = .ok ((name, .ref pointer), σ') := by
  rw [jsonBody, hr]
  dsimp only
  rw [run_bind_of_ok hrun, run_get_bind, if_pos hnames]
  exact run_bind_eq_ok.2 ⟨name, σ', run_typeName_eq_ok.2 ⟨hname, rfl⟩, rfl⟩

theorem run_responseVariant_json (hs : (jsonContent? r.content).bind (·.schema) = some s)
    (hbody : (jsonBody d operationId className status s).run σ = .ok ((name, t), σ'))
    (hheaders : (responseHeaders d operationId className name r).run σ' = .ok (headers, σ'')) :
    (responseVariant d operationId className status r).run σ =
      .ok ({ name, headers, payload := .body t false }, σ'') := by
  rw [responseVariant, hs]
  refine run_bind_eq_ok.2 ⟨(name, t), σ', hbody, ?_⟩
  exact run_bind_eq_ok.2 ⟨headers, σ'', hheaders, rfl⟩

theorem run_responseVariant_file (hs : (jsonContent? r.content).bind (·.schema) = none)
    (hfile : (r.content.any fun e => isBinaryContent e.2) = true)
    (hheaders : (responseHeaders d operationId className "File" r).run σ = .ok (headers, σ')) :
    (responseVariant d operationId className status r).run σ =
      .ok ({ name := "File", headers, payload := .body .file true }, σ') := by
  rw [responseVariant, hs]
  dsimp only
  rw [if_pos hfile]
  exact run_bind_eq_ok.2 ⟨headers, σ', hheaders, rfl⟩

/-- A response with a status alone is named after it. -/
theorem run_responseVariant_bare (hr : r.content = []) (hname : statusName? status = some name)
    (hheaders : (responseHeaders d operationId className name r).run σ = .ok (headers, σ')) :
    (responseVariant d operationId className status r).run σ =
      .ok ({ name, headers, payload := .none }, σ') := by
  rw [responseVariant, hr]
  refine run_bind_eq_ok.2 ⟨name, σ, run_orRefuse_eq_ok.2 ⟨hname, rfl⟩, ?_⟩
  exact run_bind_eq_ok.2 ⟨headers, σ', hheaders, rfl⟩

/-- Responses are resolved one after another. -/
theorem run_responseVariants_cons {text : String} {rest : List (String × Document.Response)}
    {done all : List (Status × Variant)} {v : Variant}
    (hstatus : Status.ofName? text = some status)
    (hv : (responseVariant d operationId className status r).run σ = .ok (v, σ'))
    (hdefault : (status == .default && !hasStatus σ'.table v) = false)
    (hnew : (done.any fun e => e.2.name == v.name) = false)
    (hrest : (responseVariants d operationId className
      (Assoc.put status v done) rest).run σ' = .ok (all, σ'')) :
    (responseVariants d operationId className done ((text, r) :: rest)).run σ =
      .ok (all, σ'') := by
  refine run_bind_eq_ok.2 ⟨status, σ, run_orRefuse_eq_ok.2 ⟨hstatus, rfl⟩, ?_⟩
  refine run_bind_eq_ok.2 ⟨v, σ', hv, ?_⟩
  rw [run_get_bind, if_neg (by simp [hdefault]), if_neg (by simp [hnew])]
  exact hrest

/-- The responses of an operation are named after it. -/
theorem run_responseBody_of (name : String) {o : Document.Operation} {all : List (Status × Variant)}
    (hname : Naming.typeName? operationId = some name)
    (hall : (responseVariants d operationId (name ++ "Response") [] o.responses).run σ =
      .ok (all, σ')) :
    (responseBody d operationId o).run σ =
      .ok ({ className := name ++ "Response", variants := all }, σ') := by
  refine run_bind_eq_ok.2 ⟨name, σ, run_typeName_eq_ok.2 ⟨hname, rfl⟩, ?_⟩
  exact run_bind_eq_ok.2 ⟨all, σ', hall, rfl⟩

end Responses

/-! ## Operations -/

section Operations

variable {d : Document} {operationId name path : String} {method : Method}
  {item : Document.PathItem} {o : Document.Operation} {σ σ' σ'' : Progress}

/-- An operation is resolved part by part. -/
theorem run_operation_of {security? : Option Security} {declared params : List Param}
    {b : Option RequestBody} {rb : ResponseBody} (hid : o.operationId = some operationId)
    (hname : Naming.typeName? operationId = some name)
    (hsecurity : security d o = .ok security?)
    (hdeclared : (parameters d operationId item o).run σ = .ok (declared, σ))
    (hparams : (security?.map securityParam).toList ++
      declared.filter (fun p => !isSecurityHeader security? p) = params)
    (hall : undeclared? path params = none)
    (hrequest : (requestBody d operationId o).run σ = .ok (b, σ'))
    (hresponse : (responseBody d operationId o).run σ' = .ok (rb, σ'')) :
    (operation d path method item o).run σ = .ok ({
      path
      method
      operationId
      summary := o.summary.or o.description
      params
      requestBody := b
      responseBody := rb }, σ'') := by
  refine run_bind_eq_ok.2 ⟨operationId, σ, run_orRefuse_eq_ok.2 ⟨hid, rfl⟩, ?_⟩
  refine run_bind_eq_ok.2 ⟨name, σ, run_typeName_eq_ok.2 ⟨hname, rfl⟩, ?_⟩
  refine run_bind_eq_ok.2 ⟨security?, σ, run_lift_eq_ok.2 ⟨hsecurity, rfl⟩, ?_⟩
  refine run_bind_eq_ok.2 ⟨declared, σ, hdeclared, ?_⟩
  dsimp only
  rw [hparams, hall]
  refine run_bind_eq_ok.2 ⟨b, σ', hrequest, ?_⟩
  exact run_bind_eq_ok.2 ⟨rb, σ'', hresponse, rfl⟩

end Operations

end Resolve
end ApiContract
