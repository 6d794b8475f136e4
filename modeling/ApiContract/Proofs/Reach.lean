import ApiContract.Resolve.Document

/-!
# What resolution looks at

**Input:** two documents and a set of pointers.

The schemas of the components are looked up by pointer only, and only by pointers that are
mentioned: by a schema of an operation, or by a schema that was looked up before.

**Results:**

* `Mentions`, `Reached`: the pointers that a schema mentions, and those that operations lead to;
* `Agree`: documents whose schemas are the same on a set of pointers that is closed under
  mentioning;
* `endpoint_congr`: operations that mention pointers of this set only are resolved in the same way
  in both documents, with the same table, warnings and failures.
-/

namespace ApiContract
namespace Resolve

open Document (Schema)

/-- The pointers that are met when a schema is resolved where it stands. -/
inductive Mentions : Schema → String → Prop
  | ref {s : Schema} {p : String}
      (href : s.ref = some p) :
      Mentions s p
  | item {s it : Schema} {p : String}
      (href : s.ref = none)
      (hcomposition : s.isComposition = false)
      (harray : s.type = some "array")
      (hitems : s.items = some it)
      (hit : Mentions it p) :
      Mentions s p
  | property {s t : Schema} {name p : String}
      (href : s.ref = none)
      (hcomposition : s.isComposition = false)
      (hobject : isObject s = true)
      (hmem : (name, t) ∈ s.properties)
      (ht : Mentions t p) :
      Mentions s p

/-- An operation of a document, with its path, its method and what it shares with other operations
of the path. -/
abbrev Endpoint := String × Method × Document.PathItem × Document.Operation

/-- Resolves an operation where it stands. -/
abbrev endpoint (d : Document) (e : Endpoint) : Resolving Operation :=
  operation d e.1 e.2.1 e.2.2.1 e.2.2.2

/-- The schemas of the parameters that hold for an operation. -/
def parameterSchemas (d : Document) (item : Document.PathItem) (o : Document.Operation) :
    List Schema :=
  match (item.parameters ++ o.parameters).mapM (followParam d) with
  | .error _ => []
  | .ok ps => (mergeParameters ps).filterMap fun e => e.2.schema

/-- The schemas of a request body that are resolved: pointers in supported media types. -/
def requestSchemas (o : Document.Operation) : List Schema :=
  o.requestBody.toList.flatMap fun b => b.content.filterMap fun e =>
    (Media.ofMime? (essence e.1)).bind fun _ => e.2.schema.filter fun s => s.ref.isSome

/-- The schemas of a response that are resolved: of its JSON body, and of its headers. -/
def responseSchemas (r : Document.Response) : List Schema :=
  ((jsonContent? r.content).bind fun c => c.schema).toList ++
    r.headers.filterMap fun e => e.2.schema

/-- The schemas of an operation that are resolved. -/
def endpointSchemas (d : Document) (e : Endpoint) : List Schema :=
  parameterSchemas d e.2.2.1 e.2.2.2 ++
    (requestSchemas e.2.2.2 ++ e.2.2.2.responses.flatMap fun r => responseSchemas r.2)

/-- The pointers that operations of a document lead to. -/
inductive Reached (d : Document) : String → Prop
  | endpoint {e : Endpoint} {s : Schema} {p : String}
      (he : e ∈ operationsOf d)
      (hs : s ∈ endpointSchemas d e)
      (hp : Mentions s p) :
      Reached d p
  | schema {s : Schema} {p q : String}
      (hp : Reached d p)
      (hs : d.schema? p = some s)
      (hq : Mentions s q) :
      Reached d q

/-- Documents with the same schemas behind the pointers of a set, which contains every pointer that
these schemas mention, and with the same shared parameters and security. -/
structure Agree (d d' : Document) (within : String → Prop) : Prop where
  schemas : ∀ p, within p → d'.schema? p = d.schema? p
  closed : ∀ p s q, within p → d.schema? p = some s → Mentions s q → within q
  parameters : d'.components.parameters = d.components.parameters
  schemes : d'.components.securitySchemes = d.components.securitySchemes
  security : d'.security = d.security

/-! ## Schemas -/

theorem arrayOf_eq (d : Document) (path : List String) (name? : Option String) (s : Schema)
    (context : String) :
    arrayOf d path name? s context =
      match s.items with
      | none => refuse (.missingItems context)
      | some it => do return .array name? (← typeOf d path it (context ++ "Item")) := by
  rw [arrayOf]
  split
  · rename_i hi
    rw [hi]
  · rename_i hi
    rw [hi]

theorem reference_eq (d : Document) (path : List String) (pointer : String) :
    reference d path pointer = (do
      if (← get).table.contains pointer then return .ref pointer
      if path.contains pointer then
        modify fun p => { p with table := p.table.mark pointer }
        return .ref pointer
      match d.schema? pointer with
      | none => refuse (.unresolvedRef pointer)
      | some s =>
        let name ← typeName (Naming.simpleName pointer) "Schema"
        modify fun p => { p with entered := p.entered ++ [pointer] }
        let resolved ← named d (pointer :: path) s name
        modify fun p => { p with table := p.table.insert pointer resolved }
        return .ref pointer) := by
  rw [reference]
  congr 1
  funext σ
  split
  · rfl
  · cases path.contains pointer <;> cases d.schema? pointer <;> rfl

theorem mapM_congr {α β : Type} {g g' : α → Resolving β} {as : List α}
    (h : ∀ a ∈ as, g a = g' a) : as.mapM g = as.mapM g' := by
  induction as with
  | nil => rfl
  | cons a as ih =>
      rw [List.mapM_cons, List.mapM_cons, h a List.mem_cons_self,
        ih fun a' ha' => h a' (List.mem_cons_of_mem a ha')]

/-- Steps that do not look at the table are taken before it is looked at. -/
theorem mapM_lift {α β : Type} (f : α → Except ResolveError β) (as : List α) :
    as.mapM (fun a => (liftM (f a) : Resolving β)) = liftM (as.mapM f) := by
  induction as with
  | nil => rfl
  | cons a as ih =>
      rw [List.mapM_cons, List.mapM_cons, ih]
      cases f a with
      | error e => rfl
      | ok b =>
          cases as.mapM f with
          | error e => rfl
          | ok bs => rfl

section Congruence

variable {d d' : Document} {within : String → Prop}

theorem resolving_congr (h : Agree d d' within) :
    (∀ path s context, (∀ p, Mentions s p → within p) →
      typeOf d' path s context = typeOf d path s context) ∧
    (∀ path required context props, (∀ e ∈ props, ∀ p, Mentions e.2 p → within p) →
      propertiesOf d' path required context props = propertiesOf d path required context props) ∧
    (∀ path name? s context, (∀ it, s.items = some it → ∀ p, Mentions it p → within p) →
      arrayOf d' path name? s context = arrayOf d path name? s context) ∧
    (∀ path pointer, within pointer → reference d' path pointer = reference d path pointer) ∧
    (∀ path s name, (∀ p, Mentions s p → within p) →
      named d' path s name = named d path s name) := by
  have hplain : ∀ {s : Schema}, ¬ (s.ref.isSome || s.isComposition) = true →
      s.ref = none ∧ s.isComposition = false := by
    intro s hr
    simpa using hr
  apply typeOf.mutual_induct d
  -- `typeOf`: a pointer, a composition, a scalar, an array, an object, an unknown type.
  · intro path s context pointer hr ih hs
    rw [typeOf, typeOf, hr]
    exact ih (hs pointer (.ref hr))
  · intro path s context hr hc _
    rw [typeOf, typeOf, hr]
    simp only [hc, if_true]
  · intro path s context hr hc u hu _
    rw [typeOf, typeOf, hr]
    simp only [hc, hu, Bool.false_eq_true, if_false]
  · intro path s context hr hc hu ha ih hs
    rw [typeOf, typeOf, hr]
    simp only [hc, hu, ha, Bool.false_eq_true, if_false, if_true]
    exact ih fun it hi p hp => hs p (.item hr (by simpa using hc) ha hi hp)
  · intro path s context hr hc hu ha ho ih hs
    rw [typeOf, typeOf, hr]
    simp only [hc, hu, ha, ho, Bool.false_eq_true, if_false, if_true]
    rw [ih fun e he p hp => hs p (.property hr (by simpa using hc) ho he hp)]
  · intro path s context hr hc hu ha ho _
    rw [typeOf, typeOf, hr]
    simp only [hc, hu, ha, ho, Bool.false_eq_true, if_false]
  -- `propertiesOf`: none, or one and the others.
  · intro path required context _
    rw [propertiesOf, propertiesOf]
  · intro path required context name s rest ihs ihrest hs
    rw [propertiesOf, propertiesOf]
    rw [ihs (hs (name, s) List.mem_cons_self)]
    rw [ihrest fun e he => hs e (List.mem_cons_of_mem _ he)]
  -- `arrayOf`: without items, or with.
  · intro path name? s context hi _
    rw [arrayOf_eq, arrayOf_eq, hi]
  · intro path name? s context it hi ih hs
    rw [arrayOf_eq, arrayOf_eq, hi]
    dsimp only
    rw [ih (hs it hi)]
  -- `reference`: in the table, on the path, or to be expanded.
  · intro path pointer ih hp
    rw [reference_eq, reference_eq, h.schemas pointer hp]
    refine bind_congr fun σ => ?_
    by_cases hk : σ.table.contains pointer = true
    · rw [if_pos hk, if_pos hk]
    rw [if_neg hk, if_neg hk]
    by_cases hpath : path.contains pointer = true
    · rw [if_pos hpath, if_pos hpath]
    · rw [if_neg hpath, if_neg hpath]
      cases hs : d.schema? pointer with
      | none => rfl
      | some s =>
          have hnamed : ∀ name, named d' (pointer :: path) s name =
              named d (pointer :: path) s name :=
            fun name => ih (by simpa using hpath) s hs name fun q hq =>
              h.closed pointer s q hp hs hq
          simp only [hnamed]
  -- `named`: a pointer or composition, an array, an object, anything else.
  · intro path s name hr ih hs
    rw [named, named, if_pos hr, if_pos hr]
    exact ih hs
  · intro path s name hr ha ih hs
    obtain ⟨href, hc⟩ := hplain hr
    rw [named, named, if_neg hr, if_neg hr, if_pos ha, if_pos ha]
    exact ih fun it hi p hp => hs p (.item href hc ha hi hp)
  · intro path s name hr ha ho ih hs
    obtain ⟨href, hc⟩ := hplain hr
    rw [named, named, if_neg hr, if_neg hr, if_neg ha, if_neg ha, if_pos ho, if_pos ho]
    rw [ih fun e he p hp => hs p (.property href hc ho he hp)]
  · intro path s name hr ha ho ih hs
    rw [named, named, if_neg hr, if_neg hr, if_neg ha, if_neg ha, if_neg ho, if_neg ho]
    exact ih hs

theorem typeOf_congr (h : Agree d d' within) {s : Schema} (hs : ∀ p, Mentions s p → within p)
    (context : String) : typeOf d' [] s context = typeOf d [] s context :=
  (resolving_congr h).1 [] s context hs

theorem reference_congr (h : Agree d d' within) {pointer : String} (hp : within pointer) :
    reference d' [] pointer = reference d [] pointer :=
  (resolving_congr h).2.2.2.1 [] pointer hp

/-! ## Operations -/

theorem primitiveOf?_congr (h : Agree d d' within) {s? : Option Schema}
    (hs : ∀ s ∈ s?, ∀ p, Mentions s p → within p) (context : String) :
    primitiveOf? d' s? context = primitiveOf? d s? context := by
  cases s? with
  | none => rfl
  | some s =>
      unfold primitiveOf?
      simp only [typeOf_congr h (hs s rfl) context]

theorem followParam_congr (h : Agree d d' within) : followParam d' = followParam d := by
  have hfollow : ∀ origin steps e, followFrom d' origin steps e = followFrom d origin steps e := by
    intro origin steps
    induction steps with
    | zero =>
        intro e
        rfl
    | succ steps ih =>
        intro e
        cases e with
        | inline p => rfl
        | ref pointer =>
            have hparameter : d'.parameter? pointer = d.parameter? pointer := by
              unfold Document.parameter?
              rw [h.parameters]
            rw [followFrom, followFrom, hparameter]
            cases d.parameter? pointer with
            | none => rfl
            | some e => exact ih e
  funext e
  unfold followParam
  rw [h.parameters]
  exact hfollow _ _ e

theorem security_congr (h : Agree d d' within) (o : Document.Operation) :
    security d' o = security d o := by
  unfold security requirement?
  rw [h.security, h.schemes]

theorem parameter_congr (h : Agree d d' within) (operationId : String) {p : Document.Parameter}
    (hp : ∀ s ∈ p.schema, ∀ q, Mentions s q → within q) :
    parameter d' operationId p = parameter d operationId p := by
  unfold parameter
  simp only [primitiveOf?_congr h hp]

theorem parameters_congr (h : Agree d d' within) (operationId : String)
    {item : Document.PathItem} {o : Document.Operation}
    (hs : ∀ s ∈ parameterSchemas d item o, ∀ q, Mentions s q → within q) :
    parameters d' operationId item o = parameters d operationId item o := by
  unfold parameters
  rw [followParam_congr h, mapM_lift]
  unfold parameterSchemas at hs
  cases hps : (item.parameters ++ o.parameters).mapM (followParam d) with
  | error e => rfl
  | ok ps =>
      rw [hps] at hs
      have hparameters : (mergeParameters ps).mapM (fun e => parameter d' operationId e.2) =
          (mergeParameters ps).mapM fun e => parameter d operationId e.2 := by
        refine mapM_congr fun e he => parameter_congr h operationId fun s hse => ?_
        exact hs s (List.mem_filterMap.2 ⟨e, he, hse⟩)
      exact hparameters

theorem requestContents_congr (h : Agree d d' within) (operationId : String)
    {content : Document.Content} (done : List (Media × Descriptor))
    (hs : ∀ e ∈ content, ∀ m, Media.ofMime? (essence e.1) = some m →
      ∀ s ∈ e.2.schema, ∀ p, s.ref = some p → within p) :
    requestContents d' operationId done content = requestContents d operationId done content := by
  induction content generalizing done with
  | nil => rfl
  | cons e rest ih =>
      obtain ⟨mime, c⟩ := e
      have ih' := fun done => ih done fun e he => hs e (List.mem_cons_of_mem _ he)
      rw [requestContents, requestContents]
      cases hm : Media.ofMime? (essence mime) with
      | none => simp only [ih']
      | some m =>
          cases hr : c.schema.bind (·.ref) with
          | none => simp only [ih']
          | some pointer =>
              obtain ⟨s, hc, href⟩ := Option.bind_eq_some_iff.1 hr
              have hp : within pointer := hs (mime, c) List.mem_cons_self m hm s hc pointer href
              simp only [reference_congr h hp, ih']

theorem requestBody_congr (h : Agree d d' within) (operationId : String)
    {o : Document.Operation} (hs : ∀ s ∈ requestSchemas o, ∀ p, Mentions s p → within p) :
    requestBody d' operationId o = requestBody d operationId o := by
  unfold requestBody
  cases hb : o.requestBody with
  | none => rfl
  | some b =>
      have hcontent : ∀ e ∈ b.content, ∀ m, Media.ofMime? (essence e.1) = some m →
          ∀ s ∈ e.2.schema, ∀ p, s.ref = some p → within p := by
        intro e he m hm s hse p href
        have hmem : s ∈ requestSchemas o := by
          unfold requestSchemas
          rw [hb]
          refine List.mem_flatMap.2 ⟨b, by simp, List.mem_filterMap.2 ⟨e, he, ?_⟩⟩
          rw [hm, Option.mem_def.1 hse]
          simp [href]
        exact hs s hmem p (.ref href)
      simp only [requestContents_congr h operationId [] hcontent]

theorem headerProperties_congr (h : Agree d d' within) (operationId className : String)
    {headers : List (String × Document.Header)}
    (hs : ∀ e ∈ headers, ∀ s ∈ e.2.schema, ∀ p, Mentions s p → within p) :
    headerProperties d' operationId className headers =
      headerProperties d operationId className headers := by
  induction headers with
  | nil => rfl
  | cons e rest ih =>
      obtain ⟨header, hd⟩ := e
      have hhead := hs (header, hd) List.mem_cons_self
      have ih' := ih fun e he => hs e (List.mem_cons_of_mem _ he)
      rw [headerProperties, headerProperties, primitiveOf?_congr h hhead, ih']

theorem responseHeaders_congr (h : Agree d d' within) (operationId className variant : String)
    {r : Document.Response} (hs : ∀ s ∈ responseSchemas r, ∀ p, Mentions s p → within p) :
    responseHeaders d' operationId className variant r =
      responseHeaders d operationId className variant r := by
  have hheaders : ∀ e ∈ r.headers, ∀ s ∈ e.2.schema, ∀ p, Mentions s p → within p :=
    fun e he s hse => hs s (List.mem_append_right _ (List.mem_filterMap.2 ⟨e, he, hse⟩))
  unfold responseHeaders
  simp only [headerProperties_congr h operationId _ hheaders]

theorem jsonBody_congr (h : Agree d d' within) (operationId className : String) (status : Status)
    {s : Schema} (hs : ∀ p, Mentions s p → within p) :
    jsonBody d' operationId className status s = jsonBody d operationId className status s := by
  unfold jsonBody
  cases hr : s.ref with
  | none => simp only [typeOf_congr h hs]
  | some pointer => simp only [reference_congr h (hs pointer (.ref hr))]

theorem responseVariant_congr (h : Agree d d' within) (operationId className : String)
    (status : Status) {r : Document.Response}
    (hs : ∀ s ∈ responseSchemas r, ∀ p, Mentions s p → within p) :
    responseVariant d' operationId className status r =
      responseVariant d operationId className status r := by
  unfold responseVariant
  simp only [responseHeaders_congr h operationId className _ hs]
  cases hj : (jsonContent? r.content).bind (·.schema) with
  | none => rfl
  | some s =>
      have hmem : s ∈ responseSchemas r := by
        unfold responseSchemas
        rw [hj]
        exact List.mem_append_left _ List.mem_cons_self
      simp only [jsonBody_congr h operationId className status (hs s hmem)]

theorem responseVariants_congr (h : Agree d d' within) (operationId className : String)
    {responses : List (String × Document.Response)} (done : List (Status × Variant))
    (hs : ∀ e ∈ responses, ∀ s ∈ responseSchemas e.2, ∀ p, Mentions s p → within p) :
    responseVariants d' operationId className done responses =
      responseVariants d operationId className done responses := by
  induction responses generalizing done with
  | nil => rfl
  | cons e rest ih =>
      obtain ⟨text, r⟩ := e
      have hhead := hs (text, r) List.mem_cons_self
      have ih' := fun done => ih done fun e he => hs e (List.mem_cons_of_mem _ he)
      rw [responseVariants, responseVariants]
      simp only [responseVariant_congr h operationId className _ hhead, ih']

/-- An operation that mentions pointers of the set only is resolved in the same way. -/
theorem endpoint_congr (h : Agree d d' within) {e : Endpoint}
    (hs : ∀ s ∈ endpointSchemas d e, ∀ p, Mentions s p → within p) :
    endpoint d' e = endpoint d e := by
  obtain ⟨path, method, item, o⟩ := e
  have hparameters : ∀ s ∈ parameterSchemas d item o, ∀ p, Mentions s p → within p :=
    fun s hse => hs s (List.mem_append_left _ hse)
  have hrequest : ∀ s ∈ requestSchemas o, ∀ p, Mentions s p → within p :=
    fun s hse => hs s (List.mem_append_right _ (List.mem_append_left _ hse))
  have hresponses : ∀ r ∈ o.responses, ∀ s ∈ responseSchemas r.2, ∀ p, Mentions s p → within p :=
    fun r hr s hse => hs s (List.mem_append_right _ (List.mem_append_right _
      (List.mem_flatMap.2 ⟨r, hr, hse⟩)))
  unfold endpoint operation responseBody
  simp only [security_congr h, parameters_congr h _ hparameters, requestBody_congr h _ hrequest,
    responseVariants_congr h _ _ [] hresponses]

end Congruence

end Resolve
end ApiContract
