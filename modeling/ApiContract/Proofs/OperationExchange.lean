import ApiContract.Operation.Exchange
import ApiContract.Proofs.Exchanges
import ApiContract.Proofs.LegalNames

/-!
# Operations that are read back from JSON

**Input:** the operations of a resolved document, and their responses.

Everything in an operation has a JSON form but the fixed statuses, which are no names of members.
So an operation is written exactly if its only status is the default.  What is written is read back
to the same operation: the body of a default response is a pointer, so that the text is nested less
deeply than texts may be.

**Results:**

* `json?_eq_some_iff`: which operations are written, and as what;
* `readsBack_operation`: an operation is read back, as far as texts may be nested, if no name of a
  member occurs twice in its JSON;
* `keyed_of_resolve`, `depth_of_resolve`: no name of a member occurs twice in the JSON of a resolved
  operation, and how deeply it is nested;
* `resolve_exchange`: which operations of a resolved document are written, and that these are read
  back; `resolve_loses_operation` is one that is not written.
-/

namespace ApiContract

open Json (Value Whole)

/-! ## What is written -/

namespace ResponseBody

/-- All responses are for the default status. -/
def OnlyDefault (b : ResponseBody) : Prop :=
  ∀ e ∈ b.variants, e.1 = .default

/-- Responses as JSON, if they are for the default status. -/
def defaultJson (b : ResponseBody) : Value :=
  .record [("class_name", .text b.className),
    ("variants", .record (b.variants.map fun e => ("Default", e.2.json)))]

theorem mapM_memberName? (vs : List (Status × Variant)) (j : List (String × Value)) :
    (vs.mapM fun e => e.1.memberName?.map (·, e.2.json)) = some j ↔
      (∀ e ∈ vs, e.1 = .default) ∧ (vs.map fun e => ("Default", e.2.json)) = j := by
  induction vs generalizing j with
  | nil => simp
  | cons e vs ih =>
      obtain ⟨status, v⟩ := e
      rw [List.mapM_cons, List.forall_mem_cons]
      cases status with
      | code n => simp [Status.memberName?]
      | default =>
          simp only [Status.memberName?, Option.map_some, Option.bind_eq_bind, Option.bind_some,
            Option.bind_eq_some_iff] at ih ⊢
          simp only [ih, Option.pure_def, Option.some.injEq, true_and, List.map_cons]
          exact ⟨fun ⟨_, ⟨h, hj⟩, he⟩ => ⟨h, hj ▸ he⟩, fun ⟨h, he⟩ => ⟨_, ⟨h, rfl⟩, he⟩⟩

/-- Responses are written exactly if all of them are for the default status. -/
theorem json?_eq_some_iff {b : ResponseBody} {j : Value} :
    b.json? = some j ↔ b.OnlyDefault ∧ b.defaultJson = j := by
  simp only [json?, Option.bind_eq_bind, Option.bind_eq_some_iff, mapM_memberName?, Option.pure_def,
    Option.some.injEq]
  exact ⟨fun ⟨_, ⟨h, hj⟩, he⟩ => ⟨h, by rw [← he, ← hj]; rfl⟩, fun ⟨h, he⟩ => ⟨_, ⟨h, rfl⟩, he⟩⟩

end ResponseBody

namespace Operation

/-- An operation as JSON, if its responses are for the default status. -/
def defaultJson (o : Operation) : Value :=
  .record [("path", .text o.path), ("method", .text o.method.name),
    ("operation_id", .text o.operationId), ("summary", .ofText? o.summary),
    ("params", .list (o.params.map Param.json)),
    ("request_body", (o.requestBody.map RequestBody.json).getD .null),
    ("response_body", o.responseBody.defaultJson)]

/-- An operation is written exactly if all its responses are for the default status. -/
theorem json?_eq_some_iff {o : Operation} {j : Value} :
    o.json? = some j ↔ o.responseBody.OnlyDefault ∧ o.defaultJson = j := by
  simp only [json?, Option.bind_eq_bind, Option.bind_eq_some_iff, ResponseBody.json?_eq_some_iff,
    Option.pure_def, Option.some.injEq]
  exact ⟨fun ⟨_, ⟨h, hj⟩, he⟩ => ⟨h, by rw [← he, ← hj]; rfl⟩, fun ⟨h, he⟩ => ⟨_, ⟨h, rfl⟩, he⟩⟩

end Operation

/-! ## Values that may be absent -/

theorem optional?_node {α : Type} (read : Node → Option α) {v : Value} (h : v ≠ .null) :
    Node.optional? read v.node = (read v.node).map some := by
  cases v with
  | null => exact absurd rfl h
  | flag b => rfl
  | number n => rfl
  | text s => rfl
  | list items => rw [Value.node_list]; rfl
  | record members => rw [Value.node_record]; rfl

/-- What may be absent is read back if it is read back where it is there, where its JSON is not that
of nothing. -/
theorem ReadsBack.orNull {α : Type} {read : Nat → Node → Option α} {write : α → Value}
    (a? : Option α) (hne : ∀ a, write a ≠ .null) (h : ∀ a ∈ a?, ReadsBack read write a) :
    ReadsBack (fun room => Node.optional? (read room)) (fun a? =>
      (a?.map write).getD .null) a? := by
  intro room
  cases a? with
  | none => rfl
  | some a =>
      have ha := h a rfl room
      simp only [Option.map_some, Option.getD_some, optional?_node _ (hne a), ha]
      split <;> rfl

theorem Descriptor.json_ne_null (t : Descriptor) : t.json ≠ .null := by
  cases t <;> simp [Descriptor.json, Value.form]

/-- A descriptor that may be absent is read back if it is read back where it is there. -/
theorem readsBack_jsonOrNull {t? : Option Descriptor} (h : ∀ t ∈ t?, t.Keyed) :
    ReadsBack (fun room => Node.optional? (Descriptor.ofNode? room)) Descriptor.jsonOrNull t? := by
  have hwrite : Descriptor.jsonOrNull = fun t? => (t?.map Descriptor.json).getD .null := by
    funext t?
    cases t? <;> rfl
  rw [hwrite]
  exact .orNull t? Descriptor.json_ne_null fun t ht => readsBack_descriptor (h t ht)

theorem bind_of_fits {α β : Type} {fits : Prop} [Decidable fits] (a : α) (f : α → Option β) :
    (if fits then some a else none).bind f = if fits then f a else none := by
  split <;> rfl

@[simp] theorem ifGiven?_some {α : Type} (read : Node → Option α) (n : Node) :
    Node.ifGiven? read (some n) = Node.optional? read n :=
  rfl

/-! ## Parts of operations -/

section Parts

theorem bareForm?_text {α : Type} (ofName? : String → Option α) (room : Nat) (s : String) :
    Node.bareForm? ofName? room (.text (some s)) = ofName? s := by
  simp only [Node.bareForm?, Node.form?]

theorem Location.ofName?_name (l : Location) : Location.ofName? l.name = some l := by
  cases l <;> rfl

theorem Method.ofName?_name (m : Method) : Method.ofName? m.name = some m := by
  cases m <;> rfl

theorem Media.ofTag?_tag (m : Media) : Media.ofTag? m.tag = some m := by
  cases m <;> rfl

theorem depth_param (p : Param) : p.json.depth = (Property.json p.property).depth + 1 := by
  simp [Param.json]

/-- A parameter is read back if the type of its value is. -/
theorem readsBack_param {p : Param} (h : p.property.type.Keyed) :
    ReadsBack Param.ofNode? Param.json p := by
  rintro (_ | room)
  · simp [Param.ofNode?, depth_param]
  · have hproperty := readsBack_property (readsBack_descriptor h) room
    have hfields := fields?_record [Node.field "name", Node.field "location", Node.field "property"]
      [("name", .text p.name), ("location", .text p.location.name),
        ("property", Property.json p.property)] room (by decide) rfl
    rw [depth_param, Param.ofNode?, Param.json, hfields]
    simp only [List.map_cons, List.map_nil, given?_some, Value.node_text, Node.text?,
      bareForm?_text, Location.ofName?_name, Nat.add_sub_cancel, hproperty, Option.bind_eq_bind,
      Option.bind_some, Option.pure_def, Nat.add_le_add_iff_right]
    split <;> rfl

/-- A request body with one content for each media type, and with types that are read back. -/
structure RequestBody.Keyed (b : RequestBody) : Prop where
  media : (b.content.map (·.1)).Nodup
  types : ∀ e ∈ b.content, e.2.Keyed

theorem readsBack_requestBody {b : RequestBody} (h : b.Keyed) :
    ReadsBack RequestBody.ofNode? RequestBody.json b := by
  have hmap := ReadsBack.map Media.ofTag? Media.tag (fun e _ => Media.ofTag?_tag e.1) h.media
    fun e he => readsBack_descriptor (h.types e he)
  have hdepth : b.json.depth =
      (Value.record (b.content.map fun e => (e.1.tag, e.2.json))).depth + 1 := by
    simp [RequestBody.json]
  rintro (_ | room)
  · rw [hdepth, if_neg (by omega)]
    rfl
  · have hread : Node.map? room Media.ofTag? (Descriptor.ofNode? (room + 1 - 2))
        (Value.record (b.content.map fun e => (e.1.tag, e.2.json))).node =
          if (Value.record (b.content.map fun e => (e.1.tag, e.2.json))).depth ≤ room
          then some b.content else none := hmap room
    have hfields := fields?_record [Node.field "class_name", Node.field "required",
      Node.field "content"] [("class_name", .text b.className), ("required", .flag b.required),
        ("content", .record (b.content.map fun e => (e.1.tag, e.2.json)))] room (by decide) rfl
    rw [hdepth, RequestBody.ofNode?, RequestBody.json, hfields]
    simp only [List.map_cons, List.map_nil, given?_some, Value.node_text, Value.node_flag,
      Node.text?, Node.flag?, Nat.add_sub_cancel, hread, Option.bind_eq_bind, Option.bind_some,
      Option.pure_def, Nat.add_le_add_iff_right]
    split <;> rfl

/-- A response whose body and headers are read back is read back. -/
theorem readsBack_variant {v : Variant} (h : ∀ t ∈ v.members, t.Keyed) :
    ReadsBack Variant.ofNode? Variant.json v := by
  obtain ⟨name, headers, payload⟩ := v
  have hheaders := readsBack_jsonOrNull fun t ht =>
    h t (List.mem_append_right _ (Option.mem_toList.2 ht))
  cases payload with
  | none =>
      have hdepth : (Variant.mk name headers .none).json.depth =
          (Descriptor.jsonOrNull headers).depth + 2 := by
        simp [Variant.json]
      rintro (_ | _ | room)
      · rw [hdepth, if_neg (by omega)]
        rfl
      · rw [hdepth, if_neg (by omega)]
        rfl
      · have hread := hheaders room
        dsimp only at hread
        have hroom : room + 1 + 1 - 2 = room := rfl
        have hfields := fields?_record [Node.field "name", Node.field "headers"]
          [("name", .text name), ("headers", Descriptor.jsonOrNull headers)] room (by decide) rfl
        rw [hdepth, Variant.json, Variant.ofNode?]
        simp only [form?_form, Nat.add_sub_cancel, hroom, hfields, List.map_cons, List.map_nil,
          given?_some, Value.node_text, Node.text?, ifGiven?_some, hread, Option.bind_eq_bind,
            Option.bind_some,
          Option.pure_def, Nat.add_le_add_iff_right]
        split <;> rfl
  | body t isFile =>
      have hbody := readsBack_descriptor (h t (List.mem_append_left _ (by simp [Variant.body?])))
      have hdepth : (Variant.mk name headers (.body t isFile)).json.depth =
          max (Descriptor.jsonOrNull headers).depth t.json.depth + 2 := by
        simp [Variant.json]
      rintro (_ | _ | room)
      · rw [hdepth, if_neg (by omega)]
        rfl
      · rw [hdepth, if_neg (by omega)]
        rfl
      · have hread := hheaders room
        dsimp only at hread
        have hroom : room + 1 + 1 - 2 = room := rfl
        have hfields := fields?_record [Node.field "name", Node.field "headers", Node.field "body",
          Node.field "is_file"] [("name", .text name), ("headers", Descriptor.jsonOrNull headers),
            ("body", t.json), ("is_file", .flag isFile)] room (by decide) rfl
        rw [hdepth, Variant.json, Variant.ofNode?]
        simp only [form?_form, List.cons_append, List.nil_append, Nat.add_sub_cancel,
          hroom, hfields,
          List.map_cons, List.map_nil, given?_some, Value.node_text, Value.node_flag, Node.text?,
          Node.flag?, ifGiven?_some, hread, hbody room, bind_of_fits, Option.bind_eq_bind,
          Option.bind_some, Option.pure_def, Nat.add_le_add_iff_right, Nat.max_le, ite_and]

theorem whole_param {p : Param} (h : p.property.type.Keyed) : Whole p.json :=
  .record (whole_cons (.text _)
    (whole_cons (.text _) (whole_cons (whole_property h.whole) whole_nil)))

theorem whole_requestBody {b : RequestBody} (h : b.Keyed) : Whole b.json := by
  refine .record (whole_cons (.text _) (whole_cons (.flag _) (whole_cons (.record ?_) whole_nil)))
  rintro _ hm
  obtain ⟨e, he, rfl⟩ := List.mem_map.1 hm
  exact (h.types e he).whole

theorem whole_jsonOrNull {t? : Option Descriptor} (h : ∀ t ∈ t?, t.Keyed) :
    Whole (Descriptor.jsonOrNull t?) := by
  cases t? with
  | none => exact .null
  | some t => exact (h t rfl).whole

theorem whole_variant {v : Variant} (h : ∀ t ∈ v.members, t.Keyed) : Whole v.json := by
  obtain ⟨name, headers, payload⟩ := v
  have hheaders := whole_jsonOrNull fun t ht =>
    h t (List.mem_append_right _ (Option.mem_toList.2 ht))
  cases payload with
  | none => exact whole_form (.record (whole_cons (.text _) (whole_cons hheaders whole_nil)))
  | body t isFile =>
      have ht := h t (List.mem_append_left _ (by simp [Variant.body?]))
      exact whole_form (.record (whole_cons (.text _) (whole_cons hheaders
        (whole_cons ht.whole (whole_cons (.flag _) whole_nil)))))

end Parts

/-! ## Operations -/

section Operations

theorem depth_responses (b : ResponseBody) :
    b.defaultJson.depth =
      (Value.record (b.variants.map fun e => ("Default", e.2.json))).depth + 1 := by
  simp [ResponseBody.defaultJson]

/-- Responses with one variant for each status, in which no sum has two variants of one tag. -/
structure ResponseBody.Keyed (b : ResponseBody) : Prop where
  statuses : (b.variants.map (·.1)).Nodup
  types : ∀ e ∈ b.variants, ∀ t ∈ e.2.members, t.Keyed

/-- The responses for the default status are read back. -/
theorem readsBack_responseBody {b : ResponseBody} (h : b.Keyed) (honly : b.OnlyDefault) :
    ReadsBack ResponseBody.ofNode? ResponseBody.defaultJson b := by
  have hkey : ∀ e ∈ b.variants, Status.ofMemberName? "Default" = some e.1 := by
    intro e he
    rw [honly e he]
    rfl
  have hmap := ReadsBack.map Status.ofMemberName? (fun _ => "Default") hkey h.statuses fun e he =>
    readsBack_variant (h.types e he)
  rintro (_ | room)
  · rw [depth_responses, if_neg (by omega)]
    rfl
  · have hread : Node.map? room Status.ofMemberName? (Variant.ofNode? (room + 1 - 2))
        (Value.record (b.variants.map fun e => ("Default", e.2.json))).node =
          if (Value.record (b.variants.map fun e => ("Default", e.2.json))).depth ≤ room
          then some b.variants else none := hmap room
    have hfields := fields?_record [Node.field "class_name", Node.field "variants"]
      [("class_name", .text b.className),
        ("variants", .record (b.variants.map fun e => ("Default", e.2.json)))] room (by decide) rfl
    rw [depth_responses, ResponseBody.ofNode?, ResponseBody.defaultJson, hfields]
    simp only [List.map_cons, List.map_nil, given?_some, Value.node_text, Node.text?,
      Nat.add_sub_cancel, hread, Option.bind_eq_bind, Option.bind_some, Option.pure_def,
      Nat.add_le_add_iff_right]
    split <;> rfl

/-- An operation in whose JSON no name of a member occurs twice. -/
structure Operation.Keyed (o : Operation) : Prop where
  params : ∀ p ∈ o.params, p.property.type.Keyed
  request : ∀ b ∈ o.requestBody, b.Keyed
  responses : o.responseBody.Keyed

theorem depth_operation (o : Operation) :
    o.defaultJson.depth = max (Value.list (o.params.map Param.json)).depth
      (max ((o.requestBody.map RequestBody.json).getD .null).depth o.responseBody.defaultJson.depth)
      + 1 := by
  simp [Operation.defaultJson]

/-- An operation with responses for the default status is read back, if no name of a member occurs
twice. -/
theorem readsBack_operation {o : Operation} (h : o.Keyed) (honly : o.responseBody.OnlyDefault) :
    ReadsBack Operation.ofNode? Operation.defaultJson o := by
  have hparams := ReadsBack.list fun p hp => readsBack_param (h.params p hp)
  have hrequest := ReadsBack.orNull o.requestBody (fun b => by simp [RequestBody.json])
    fun b hb => readsBack_requestBody (h.request b hb)
  have hresponses := readsBack_responseBody h.responses honly
  rintro (_ | room)
  · rw [depth_operation, if_neg (by omega)]
    rfl
  · have hlist : Node.list? room (Param.ofNode? (room + 1 - 2))
        (Value.list (o.params.map Param.json)).node =
          if (Value.list (o.params.map Param.json)).depth ≤ room then some o.params else none :=
      hparams room
    have hoptional := hrequest room
    dsimp only at hoptional
    have hsummary : Node.optional? Node.text? (Value.ofText? o.summary).node = some o.summary :=
      ifGiven?_ofText? o.summary
    have hfields := fields?_record [Node.field "path", Node.field "method",
      Node.field "operation_id", Node.field "summary", Node.field "params",
        Node.field "request_body",
      Node.field "response_body"] [("path", .text o.path),
        ("method", .text o.method.name), ("operation_id", .text o.operationId),
        ("summary", .ofText? o.summary), ("params", .list (o.params.map Param.json)),
        ("request_body", (o.requestBody.map RequestBody.json).getD .null),
        ("response_body", o.responseBody.defaultJson)] room (by decide) rfl
    rw [depth_operation, Operation.ofNode?, Operation.defaultJson, hfields]
    simp only [List.map_cons, List.map_nil, given?_some, Value.node_text, Node.text?,
      ifGiven?_some, bareForm?_text, Method.ofName?_name, hsummary, Nat.add_sub_cancel, hlist,
      hoptional, hresponses room, bind_of_fits, Option.bind_eq_bind, Option.bind_some,
        Option.pure_def,
      Nat.add_le_add_iff_right, Nat.max_le, ite_and]

theorem ResponseBody.Keyed.whole {b : ResponseBody} (h : b.Keyed) : Whole b.defaultJson := by
  refine .record (whole_cons (.text _) (whole_cons (.record ?_) whole_nil))
  rintro _ hm
  obtain ⟨e, he, rfl⟩ := List.mem_map.1 hm
  exact whole_variant (h.types e he)

/-- Operations are written without numbers. -/
theorem Operation.Keyed.whole {o : Operation} (h : o.Keyed) : Whole o.defaultJson := by
  have hparams : ∀ v ∈ o.params.map Param.json, Whole v := by
    intro v hv
    obtain ⟨p, hp, rfl⟩ := List.mem_map.1 hv
    exact whole_param (h.params p hp)
  have hrequest : Whole ((o.requestBody.map RequestBody.json).getD .null) := by
    cases hb : o.requestBody with
    | none => exact .null
    | some b => exact whole_requestBody (h.request b hb)
  exact .record (whole_cons (.text _) (whole_cons (.text _) (whole_cons (.text _)
    (whole_cons (whole_ofText? _) (whole_cons (.list hparams) (whole_cons hrequest
      (whole_cons h.responses.whole whole_nil)))))))

end Operations

/-! ## Resolved operations -/

namespace Resolve

open Document (Schema)

section Shapes

variable {s : Schema} {t : Descriptor}

theorem keyed_of_scalarOf? (h : scalarOf? s = some t) : t.Keyed := by
  rcases scalarOf?_cases h with rfl | ⟨q, rfl⟩
  · exact .fileUpload
  · exact .primitive q

/-- A schema in place has no sums in it. -/
theorem keyed_of_shapeOf? {context : String} (h : shapeOf? s context = some t) : t.Keyed :=
  shape_induction (P := fun _ t => t.Keyed) (fun _ pointer => .ref pointer)
    (fun _ _ _ hu => keyed_of_scalarOf? hu) (fun _ _ he => .array none he)
    (fun _ _ hps => .object _ hps) h

end Shapes

section Runs

variable {d : Document} {operationId className : String} {σ σ' : Progress}

/-- A parameter has a scalar for its type. -/
theorem scalar_of_parameter {p : Document.Parameter} {r : Param}
    (h : (parameter d operationId p).run σ = .ok (r, σ')) :
    ∃ q, r.property.type = .primitive q := by
  obtain ⟨location, σ₁, -, h⟩ := run_bind_eq_ok.1 h
  obtain ⟨q?, σ₂, -, h⟩ := run_bind_eq_ok.1 h
  obtain ⟨q, σ₃, -, h⟩ := run_bind_eq_ok.1 h
  obtain ⟨rfl, -⟩ := run_pure_eq_ok.1 h
  exact ⟨q, rfl⟩

theorem scalars_of_parameters {item : Document.PathItem} {od : Document.Operation} {ps : List Param}
    (h : (parameters d operationId item od).run σ = .ok (ps, σ')) :
    ∀ p ∈ ps, ∃ q, p.property.type = .primitive q := by
  intro p hp
  obtain ⟨declared, σ₁, -, h⟩ := run_bind_eq_ok.1 h
  obtain ⟨-, hscalars⟩ := run_mapM (I := fun _ => True)
    (R := fun _ r => ∃ q, r.property.type = .primitive q)
    (fun _ _ _ _ _ hr => ⟨trivial, scalar_of_parameter hr⟩) trivial h
  obtain ⟨_, -, hp⟩ := exists_of_mem_right hscalars hp
  exact hp

/-- The parameters of an operation are the one of its scheme and the ones that are declared. -/
theorem scalars_of_operation {path : String} {method : Method} {item : Document.PathItem}
    {od : Document.Operation} {o : Operation}
    (h : (operation d path method item od).run σ = .ok (o, σ')) :
    ∀ p ∈ o.params, ∃ q, p.property.type = .primitive q := by
  obtain ⟨scheme?, declared, _, -, hdeclared, hps, -⟩ := run_operation_params h
  rw [hps]
  intro p hp
  rcases List.mem_append.1 hp with hp | hp
  · obtain ⟨s, -, rfl⟩ := Option.map_eq_some_iff.1 (Option.mem_toList.1 hp)
    exact ⟨.string, rfl⟩
  · exact scalars_of_parameters hdeclared p (List.mem_of_mem_filter hp)

/-- The contents of a request body are pointers, one for each media type. -/
theorem keyed_of_requestBody {od : Document.Operation} {b : RequestBody}
    (h : (requestBody d operationId od).run σ = .ok (some b, σ')) : b.Keyed := by
  obtain ⟨rb, -, -, hcontent, -⟩ := run_requestBody h
  refine ⟨hcontent ▸ nodup_keptContents rb.content, fun e he => ?_⟩
  rw [hcontent] at he
  obtain ⟨pointer, hp⟩ := exists_ref_of_mem_keptContents he
  rw [hp]
  exact .ref pointer

theorem keyed_of_describes {table : RefTable} {r : Document.Response} {v : Variant}
    (h : Describes table className r v) : ∀ t ∈ v.members, t.Keyed := by
  refine h.forall_members (fun _ _ => keyed_of_shapeOf?) .file fun ps hps =>
    .object _ fun p hp => ?_
  obtain ⟨q, hq⟩ := hps p hp
  rw [hq]
  exact .primitive q

theorem keyed_of_responseBody {od : Document.Operation} {b : ResponseBody}
    (h : (responseBody d operationId od).run σ = .ok (b, σ')) : b.Keyed where
  statuses := (variants_of_responseBody h).1
  types := fun e he => by
    obtain ⟨r, hr⟩ := exists_describes_of_responseBody h he
    exact keyed_of_describes hr

end Runs

/-! ## Nesting -/

section Nesting

variable {d : Document} {operationId className : String} {σ σ' : Progress}

theorem depth_primitive (q : Primitive) : (Descriptor.primitive q).json.depth = 1 := by
  simp [Descriptor.json]

theorem depth_ref (pointer : String) : (Descriptor.ref pointer).json.depth = 2 := by
  simp [Descriptor.json]

/-- A JSON body of the default response is a pointer, since that status has no name by itself. -/
theorem exists_ref_of_jsonBody {s : Schema} {name : String} {t : Descriptor}
    (h : (jsonBody d operationId className .default s).run σ = .ok ((name, t), σ')) :
    ∃ pointer, t = .ref pointer := by
  rcases run_jsonBody_cases h with ⟨pointer, -, ht, -⟩ | ⟨-, hstatus, -⟩
  · exact ⟨pointer, ht⟩
  · cases hstatus

theorem depth_of_responseVariant {r : Document.Response} {v : Variant}
    (h : (responseVariant d operationId className .default r).run σ = .ok (v, σ')) :
    ∀ t ∈ v.body?, t.json.depth ≤ 2 := by
  obtain ⟨σ₁, -, ⟨_, _, -, hpayload, hb⟩ | ⟨-, -, ⟨-, hpayload, -⟩ | ⟨-, -, hstatus⟩⟩⟩ :=
    run_responseVariant_cases h
  · obtain ⟨pointer, rfl⟩ := exists_ref_of_jsonBody hb
    rw [Variant.body?, hpayload]
    rintro _ ⟨⟩
    exact Nat.le_of_eq (depth_ref pointer)
  · rw [Variant.body?, hpayload]
    rintro _ ⟨⟩
    exact Nat.zero_le 2
  · cases hstatus

theorem depth_of_mem_responseBody {od : Document.Operation} {b : ResponseBody}
    (h : (responseBody d operationId od).run σ = .ok (b, σ')) :
    ∀ e ∈ b.variants, e.1 = .default → ∀ t ∈ e.2.body?, t.json.depth ≤ 2 := by
  refine forall_of_responseBody
    (P := fun e => e.1 = .default → ∀ t ∈ e.2.body?, t.json.depth ≤ 2) (fun hv hdefault => ?_) h
  obtain rfl := hdefault
  exact depth_of_responseVariant hv

theorem depth_of_headers {table : RefTable} {r : Document.Response} {v : Variant}
    (h : Describes table className r v) : (Descriptor.jsonOrNull v.headers).depth ≤ 5 := by
  rcases h.headers with ⟨-, hnone⟩ | ⟨-, ps, hsome, hps⟩
  · rw [hnone]
    exact Nat.zero_le 5
  · have hdepth : ∀ n ∈ ps.map (fun p => (Property.json p).depth), n ≤ 2 := by
      intro n hn
      obtain ⟨p, hp, rfl⟩ := List.mem_map.1 hn
      obtain ⟨e, -, he⟩ := exists_of_mem_right hps hp
      obtain ⟨q, hq, -⟩ := he.type
      rw [depth_property, hq, depth_primitive]
    have hdeepest := Value.deepest_le_iff.2 hdepth
    rw [hsome, Descriptor.jsonOrNull, Descriptor.json, depth_form, propertiesJson_eq]
    simp only [Value.depth_record, List.map_cons, List.map_nil, Value.deepest_cons,
      Value.deepest_nil, depth_ofText?, Value.depth_list, List.map_map, Function.comp_def]
    omega

theorem depth_variant_le {v : Variant} (hheaders : (Descriptor.jsonOrNull v.headers).depth ≤ 5)
    (hbody : ∀ t ∈ v.body?, t.json.depth ≤ 2) : v.json.depth ≤ 7 := by
  obtain ⟨name, headers, payload⟩ := v
  have hheaders : (Descriptor.jsonOrNull headers).depth ≤ 5 := hheaders
  cases payload with
  | none =>
      simp only [Variant.json, depth_form, Value.depth_record, List.map_cons, List.map_nil,
        Value.deepest_cons, Value.deepest_nil, Value.depth_text]
      omega
  | body t isFile =>
      have ht := hbody t rfl
      simp only [Variant.json, depth_form, List.cons_append, List.nil_append, Value.depth_record,
        List.map_cons, List.map_nil, Value.deepest_cons, Value.deepest_nil, Value.depth_text,
        Value.depth_flag]
      omega

/-- The responses for the default status have a body behind a pointer and scalar headers. -/
theorem depth_of_responseBody {od : Document.Operation} {b : ResponseBody}
    (h : (responseBody d operationId od).run σ = .ok (b, σ')) (honly : b.OnlyDefault) :
    b.defaultJson.depth ≤ 9 := by
  have hdepth : ∀ n ∈ b.variants.map (fun e => e.2.json.depth), n ≤ 7 := by
    intro n hn
    obtain ⟨e, he, rfl⟩ := List.mem_map.1 hn
    have hbody := depth_of_mem_responseBody h e he (honly e he)
    obtain ⟨r, hr⟩ := exists_describes_of_responseBody h he
    have hheaders := depth_of_headers hr
    exact depth_variant_le hheaders hbody
  have hdeepest := Value.deepest_le_iff.2 hdepth
  rw [depth_responses, Value.depth_record]
  simp only [List.map_map, Function.comp_def]
  omega

theorem depth_of_requestBody {od : Document.Operation} {b : RequestBody}
    (h : (requestBody d operationId od).run σ = .ok (some b, σ')) : b.json.depth ≤ 4 := by
  obtain ⟨rb, -, -, hcontent, -⟩ := run_requestBody h
  have hdepth : ∀ n ∈ b.content.map (fun e => e.2.json.depth), n ≤ 2 := by
    intro n hn
    obtain ⟨e, he, rfl⟩ := List.mem_map.1 hn
    rw [hcontent] at he
    obtain ⟨pointer, hp⟩ := exists_ref_of_mem_keptContents he
    rw [hp, depth_ref]
  have hdeepest := Value.deepest_le_iff.2 hdepth
  simp only [RequestBody.json, Value.depth_record, List.map_cons, List.map_nil, Value.deepest_cons,
    Value.deepest_nil, Value.depth_text, Value.depth_flag, List.map_map, Function.comp_def]
  omega

theorem depth_of_params {ps : List Param} (h : ∀ p ∈ ps, ∃ q, p.property.type = .primitive q) :
    (Value.list (ps.map Param.json)).depth ≤ 4 := by
  have hdepth : ∀ n ∈ ps.map (fun p => p.json.depth), n ≤ 3 := by
    intro n hn
    obtain ⟨p, hp, rfl⟩ := List.mem_map.1 hn
    obtain ⟨q, hq⟩ := h p hp
    rw [depth_param, depth_property, hq, depth_primitive]
  have hdeepest := Value.deepest_le_iff.2 hdepth
  simp only [Value.depth_list, List.map_map, Function.comp_def]
  omega

end Nesting

/-! ## A document with a default response -/

section Default

/-- An operation that always fails. -/
def getStatus : Document.Operation where
  operationId := some "getStatus"
  responses := [("default", faultResponse)]

def statusDocument : Document where
  paths := [("/status", { get := some getStatus })]
  components := hostDocument.components

def statusResponses : ResponseBody where
  className := "GetStatusResponse"
  variants := [(.default, hostFault)]

def statusOperation : Operation where
  path := "/status"
  method := .get
  operationId := "getStatus"
  summary := none
  params := []
  requestBody := none
  responseBody := statusResponses

/-- What the document is resolved to. -/
def statusMetadata : Metadata where
  namePrefix := "Api"
  operations := [statusOperation]
  refs := hostProgress.table

theorem run_responseBody_status :
    (responseBody statusDocument "getStatus" getStatus).run {} =
      .ok (statusResponses, hostProgress) := by
  have hreference : (reference statusDocument [] faultPointer).run {} =
      .ok (.ref faultPointer, hostProgress) := by
    refine (run_reference_eq_ok (by decide) (by decide)).2
      ⟨rfl, _, "Fault", fault, { entered := [faultPointer] }, rfl, rfl, ?_, rfl⟩
    refine run_named_record (by decide) (by decide) (by decide) ?_
    exact run_propertiesOf_cons (run_typeOf_scalar rfl rfl rfl) run_propertiesOf_nil
  have hbody : (jsonBody statusDocument "getStatus" "GetStatusResponse" .default
      { ref := some faultPointer }).run {} = .ok (("Fault", .ref faultPointer), hostProgress) :=
    run_jsonBody_of_named rfl hreference rfl rfl
  have hfault : (responseVariant statusDocument "getStatus" "GetStatusResponse" .default
      faultResponse).run {} = .ok (hostFault, hostProgress) :=
    run_responseVariant_json rfl hbody (run_responseHeaders_none rfl)
  refine run_responseBody_of "GetStatus" rfl ?_
  exact run_responseVariants_cons rfl hfault rfl rfl rfl

theorem resolve_statusDocument : statusDocument.resolve "Api" = .ok (statusMetadata, []) := by
  have hes : operationsOf statusDocument =
      [("/status", .get, { get := some getStatus }, getStatus)] := rfl
  have hrun : (endpoint statusDocument
      ("/status", .get, { get := some getStatus }, getStatus)).run {} =
      .ok (statusOperation, hostProgress) :=
    run_operation_of rfl rfl rfl rfl rfl rfl (run_requestBody_none rfl) run_responseBody_status
  exact resolve_of_operation hes rfl hrun

end Default

/-! ## Documents -/

section Documents

variable {d : Document} {namePrefix : String} {m : Metadata} {ws : List Warning} {o : Operation}

/-- No name of a member occurs twice in the JSON of a resolved operation. -/
theorem keyed_of_resolve (h : d.resolve namePrefix = .ok (m, ws)) (ho : o ∈ m.operations) :
    o.Keyed := by
  obtain ⟨e, -, σ, σ', hr⟩ := exists_of_mem_right (run_endpoints h) ho
  obtain ⟨σ₁, σ₂, hrequest, hresponses⟩ := run_operation hr
  refine ⟨fun p hp => ?_, fun b hb => ?_, keyed_of_responseBody hresponses⟩
  · obtain ⟨q, hq⟩ := scalars_of_operation hr p hp
    rw [hq]
    exact .primitive q
  · rw [Option.mem_def.1 hb] at hrequest
    exact keyed_of_requestBody hrequest

/-- In the JSON of a resolved operation that is written, lists and records are nested no deeper than
in a header of its response. -/
theorem depth_of_resolve (h : d.resolve namePrefix = .ok (m, ws)) (ho : o ∈ m.operations)
    (honly : o.responseBody.OnlyDefault) : o.defaultJson.depth ≤ 10 := by
  obtain ⟨e, -, σ, σ', hr⟩ := exists_of_mem_right (run_endpoints h) ho
  obtain ⟨σ₁, σ₂, hrequest, hresponses⟩ := run_operation hr
  have hparams := depth_of_params (scalars_of_operation hr)
  have hresponse := depth_of_responseBody hresponses honly
  have hbody : ((o.requestBody.map RequestBody.json).getD .null).depth ≤ 4 := by
    cases hb : o.requestBody with
    | none => simp
    | some b => exact depth_of_requestBody (hb ▸ hrequest)
  rw [depth_operation]
  omega

/-- An operation of a resolved document is written as JSON exactly if the default is the only status
of its responses, and so are its responses.  What is written is read back from its text, with
everything in its order. -/
theorem resolve_exchange (h : d.resolve namePrefix = .ok (m, ws)) (ho : o ∈ m.operations) :
    (o.json?.isSome ↔ ∀ e ∈ o.responseBody.variants, e.1 = .default) ∧
      (o.responseBody.json?.isSome ↔ ∀ e ∈ o.responseBody.variants, e.1 = .default) ∧
      (∀ j, o.json? = some j → Json.read? Operation.ofNode? j.compact = some o) ∧
      ∀ j, o.responseBody.json? = some j →
        Json.read? ResponseBody.ofNode? j.compact = some o.responseBody := by
  have hkeyed := keyed_of_resolve h ho
  refine ⟨?_, ?_, fun j hj => ?_, fun j hj => ?_⟩
  · simp [Option.isSome_iff_exists, Operation.json?_eq_some_iff, ResponseBody.OnlyDefault]
  · simp [Option.isSome_iff_exists, ResponseBody.json?_eq_some_iff, ResponseBody.OnlyDefault]
  · obtain ⟨honly, rfl⟩ := Operation.json?_eq_some_iff.1 hj
    have hdepth := depth_of_resolve h ho honly
    rw [(readsBack_operation hkeyed honly).text hkeyed.whole, if_pos]
    exact Nat.le_trans hdepth (by decide)
  · obtain ⟨honly, rfl⟩ := ResponseBody.json?_eq_some_iff.1 hj
    have hdepth := depth_of_resolve h ho honly
    rw [depth_operation] at hdepth
    have hlimit : (10 : Nat) ≤ Json.depthLimit := by decide
    rw [(readsBack_responseBody hkeyed.responses honly).text hkeyed.responses.whole, if_pos]
    omega

theorem resolve_exchange_status :
    statusDocument.resolve "Api" = .ok (statusMetadata, []) ∧
      ∃ j, statusOperation.json? = some j ∧
        Json.read? Operation.ofNode? j.compact = some statusOperation := by
  obtain ⟨hwritten, -, hread, -⟩ :=
    resolve_exchange resolve_statusDocument (o := statusOperation) List.mem_cons_self
  obtain ⟨j, hj⟩ := Option.isSome_iff_exists.1 (hwritten.2 (by decide))
  exact ⟨resolve_statusDocument, j, hj, hread j hj⟩

/-- An operation with a response for a fixed status cannot be written, nor can its responses. -/
theorem resolve_loses_operation :
    loopDocument.resolve "Api" = .ok (loopMetadata, []) ∧
      ∃ o ∈ loopMetadata.operations, o.json? = none ∧ o.responseBody.json? = none :=
  ⟨resolve_loopDocument, _, List.mem_cons_self, rfl, rfl⟩

end Documents

end Resolve

end ApiContract
