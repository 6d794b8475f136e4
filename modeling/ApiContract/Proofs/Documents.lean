import ApiContract.Proofs.Reach
import ApiContract.Proofs.ResolvedParts

/-!
# Resolved documents

**Input:** a document and a name prefix with which it is resolved.

**Results:**

* `resolve_eq_ok_iff`: a document is resolved by resolving its operations one after another;
* `resolve_closed`: whatever pointer occurs in the result has an entry, and every entry is that of a
  schema of the document;
* `resolve_marks_cycles`: the marked pointers meet every cycle of the table, and lie on cycles.
-/

namespace ApiContract

/-- Everything in resolved metadata that values are sent as: the entries of the table, and the types
of all operations. -/
def Metadata.descriptors (m : Metadata) : List Descriptor :=
  m.refs.entries.map Prod.snd ++ m.operations.flatMap Operation.descriptors

namespace Resolve

section Documents

variable {d : Document} {namePrefix : String} {m : Metadata} {ws : List Warning}

theorem resolve_eq (d : Document) (namePrefix : String) :
    d.resolve namePrefix =
      (((operationsOf d).mapM (endpoint d) >>= fun os => typeName namePrefix "Name prefix" >>=
        fun name => get >>= fun σ => pure (Metadata.mk name os σ.table)).run {}).map
          fun r => (r.1, r.2.warnings) :=
  rfl

/-- A document is resolved by resolving its operations one after another, beginning with the empty
table, if the prefix can be used. -/
theorem resolve_eq_ok_iff :
    d.resolve namePrefix = .ok (m, ws) ↔
      ∃ name os σ, Naming.typeName? namePrefix = some name ∧
        ((operationsOf d).mapM (endpoint d)).run {} = .ok (os, σ) ∧
        m = { namePrefix := name, operations := os, refs := σ.table } ∧ ws = σ.warnings := by
  rw [resolve_eq]
  cases hos : ((operationsOf d).mapM (endpoint d)).run {} with
  | error e =>
      rw [run_bind_of_error hos]
      constructor
      · intro h
        cases h
      · rintro ⟨name, os, σ, -, h, -, -⟩
        cases h
  | ok r =>
      obtain ⟨os, σ⟩ := r
      rw [run_bind_of_ok hos]
      constructor
      · intro h
        cases hname : Naming.typeName? namePrefix with
        | none =>
            rw [typeName, hname] at h
            cases h
        | some name =>
            rw [typeName, hname] at h
            cases h
            exact ⟨name, os, σ, rfl, rfl, rfl, rfl⟩
      · rintro ⟨name, os', σ', hname, h, rfl, rfl⟩
        cases h
        rw [typeName, hname]
        rfl

/-- A document with one operation is resolved by resolving it. -/
theorem resolve_of_operation {name : String} {e : String × Method × Document.PathItem ×
    Document.Operation} {o : Operation} {σ : Progress} (hes : operationsOf d = [e])
    (hname : Naming.typeName? namePrefix = some name) (hrun : (endpoint d e).run {} = .ok (o, σ)) :
    d.resolve namePrefix =
      .ok ({ namePrefix := name, operations := [o], refs := σ.table }, σ.warnings) := by
  refine resolve_eq_ok_iff.2 ⟨name, [o], σ, hname, ?_, rfl, rfl⟩
  rw [hes]
  exact run_mapM_cons hrun rfl

/-- All operations of a document have an outcome, and then they are resolved one after another; or
one of them fails, and they are not. -/
theorem outcomes_or_fails (d : Document) :
    (∃ outcomes : List (Operation × List String),
      List.Forall₂ (fun e o => (∀ u ∈ o.1.descriptors, u.pointers ⊆ o.2) ∧
        Yields d [] (endpoint d e) o.1 o.2) (operationsOf d) outcomes ∧
      Yields d [] ((operationsOf d).mapM (endpoint d)) (outcomes.map Prod.fst)
        (outcomes.flatMap Prod.snd)) ∨
    (∃ e ∈ operationsOf d, Fails d [] (endpoint d e)) ∧
      Fails d [] ((operationsOf d).mapM (endpoint d)) := by
  have hsteady : ∀ e ∈ operationsOf d, Steady d [] (endpoint d e) fun o asked =>
      ∀ u ∈ o.descriptors, u.pointers ⊆ asked :=
    fun e _ => Steady.operation e.1 e.2.1 e.2.2.1 e.2.2.2
  exact Steady.mapM_outcomes hsteady

/-- The operations of a resolved document, with what each asks for. -/
theorem exists_outcomes (h : d.resolve namePrefix = .ok (m, ws)) :
    ∃ outcomes : List (Operation × List String),
      List.Forall₂ (fun e o => (∀ u ∈ o.1.descriptors, u.pointers ⊆ o.2) ∧
        Yields d [] (endpoint d e) o.1 o.2) (operationsOf d) outcomes ∧
      m.operations = outcomes.map Prod.fst ∧
      Visit d [] (outcomes.flatMap Prod.snd) .empty m.refs := by
  obtain ⟨name, os, σ, -, hr, rfl, rfl⟩ := resolve_eq_ok_iff.1 h
  rcases outcomes_or_fails d with ⟨outcomes, ho, hy⟩ | ⟨-, hf⟩
  · obtain ⟨σ', hr', hv⟩ := hy {} (.empty d) (List.nil_subset _)
    obtain ⟨rfl, rfl⟩ := Prod.mk.inj (Except.ok.inj (hr.symm.trans hr'))
    exact ⟨outcomes, ho, rfl, hv⟩
  · obtain ⟨e, he⟩ := hf {} (.empty d) (List.nil_subset _)
    cases hr.symm.trans he

/-- The operations of a resolved document are those of its endpoints, each of the one in its
place. -/
theorem run_endpoints (h : d.resolve namePrefix = .ok (m, ws)) :
    List.Forall₂ (fun e o => ∃ σ σ', (endpoint d e).run σ = .ok (o, σ')) (operationsOf d)
      m.operations := by
  obtain ⟨outcomes, houtcomes, hops, -⟩ := exists_outcomes h
  rw [hops, List.forall₂_map_right_iff]
  refine houtcomes.imp fun e o ho => ?_
  obtain ⟨σ', hr, -⟩ := ho.2 {} (.empty d) (List.nil_subset _)
  exact ⟨{}, σ', hr⟩

/-- The table of a resolved document is settled. -/
theorem settled_of_resolve (h : d.resolve namePrefix = .ok (m, ws)) : Settled d m.refs := by
  obtain ⟨outcomes, -, -, hv⟩ := exists_outcomes h
  exact ⟨_, hv⟩

end Documents

/-! ## A document with a cycle -/

section Loop

/-- A pointer to a record. -/
abbrev nodePointer : String :=
  "#/components/schemas/Node"

/-- A pointer to nothing but that pointer. -/
abbrev linkPointer : String :=
  "#/components/schemas/Link"

/-- A response with the record. -/
def nodeResponse : Document.Response where
  description := none
  headers := []
  content := [("application/json", { schema := some { ref := some nodePointer } })]

/-- An operation with this response. -/
def listNodes : Document.Operation where
  operationId := some "listNodes"
  responses := [("200", nodeResponse)]

/-- A document in which a record refers to itself by another name. -/
def loopDocument : Document where
  paths := [("/nodes", { get := some listNodes })]
  components := {
    schemas := [
      ("Node", { type := some "object", properties := [("next", { ref := some linkPointer })] }),
      ("Link", { ref := some nodePointer })] }

/-- The descriptor of the record. -/
def node : Descriptor :=
  .object (some "Node") [{ name := "next", type := .ref linkPointer, required := false }]

/-- What the response becomes. -/
def nodeVariant : Variant where
  name := "Node"
  headers := none
  payload := .body (.ref nodePointer) false

/-- The state after the record has been resolved.  It is marked, since it is met again on its own
path; its other name is not. -/
def loopProgress : Progress where
  table := {
    entries := [(linkPointer, .ref nodePointer), (nodePointer, node)]
    recursive := [nodePointer]
    nodup_keys := by decide }
  entered := [nodePointer, linkPointer]

/-- What the operation is resolved to. -/
def loopOperation : Operation where
  path := "/nodes"
  method := .get
  operationId := "listNodes"
  summary := none
  params := []
  requestBody := none
  responseBody := {
    className := "ListNodesResponse"
    variants := [(.code 200, nodeVariant)] }

/-- What the document is resolved to. -/
def loopMetadata : Metadata where
  namePrefix := "Api"
  operations := [loopOperation]
  refs := loopProgress.table

theorem run_reference_node :
    (reference loopDocument [] nodePointer).run {} = .ok (.ref nodePointer, loopProgress) := by
  have hlink : (reference loopDocument [nodePointer] linkPointer).run { entered := [nodePointer] } =
      .ok (.ref linkPointer, {
        table := (RefTable.empty.mark nodePointer).insert linkPointer (.ref nodePointer)
        entered := [nodePointer, linkPointer] }) := by
    refine (run_reference_eq_ok (by decide) (by decide)).2
      ⟨rfl, { ref := some nodePointer }, "Link", .ref nodePointer, {
        table := RefTable.empty.mark nodePointer
        entered := [nodePointer, linkPointer] }, rfl, rfl, ?_, rfl⟩
    exact run_named_ref rfl (run_reference_of_mem_path (by decide) (by decide))
  refine (run_reference_eq_ok (by decide) (by decide)).2
    ⟨rfl, _, "Node", node, {
      table := (RefTable.empty.mark nodePointer).insert linkPointer (.ref nodePointer)
      entered := [nodePointer, linkPointer] }, rfl, rfl, ?_, rfl⟩
  refine run_named_record (by decide) (by decide) (by decide) ?_
  exact run_propertiesOf_cons (run_typeOf_ref rfl hlink) run_propertiesOf_nil

theorem run_responseVariants_node :
    (responseVariants loopDocument "listNodes" "ListNodesResponse" []
      [("200", nodeResponse)]).run {} = .ok ([(.code 200, nodeVariant)], loopProgress) := by
  have hbody : (jsonBody loopDocument "listNodes" "ListNodesResponse" (.code 200)
      { ref := some nodePointer }).run {} = .ok (("Node", .ref nodePointer), loopProgress) :=
    run_jsonBody_of_named rfl run_reference_node rfl rfl
  have hvariant : (responseVariant loopDocument "listNodes" "ListNodesResponse" (.code 200)
      nodeResponse).run {} = .ok (nodeVariant, loopProgress) :=
    run_responseVariant_json rfl hbody rfl
  exact run_responseVariants_cons rfl hvariant rfl rfl rfl

/-- The operation has a usable name, no scheme, no parameters and no request body. -/
theorem run_operation_node :
    (operation loopDocument "/nodes" .get { get := some listNodes } listNodes).run {} =
      .ok (loopOperation, loopProgress) := by
  have hresponses : (responseBody loopDocument "listNodes" listNodes).run {} =
      .ok (loopOperation.responseBody, loopProgress) :=
    run_responseBody_of "ListNodes" rfl run_responseVariants_node
  exact run_operation_of rfl rfl rfl rfl rfl rfl (run_requestBody_none rfl) hresponses

theorem resolve_loopDocument : loopDocument.resolve "Api" = .ok (loopMetadata, []) := by
  have hes : operationsOf loopDocument =
      [("/nodes", .get, { get := some listNodes }, listNodes)] := rfl
  exact resolve_of_operation hes rfl run_operation_node

end Loop

/-! ## Pointers and marks -/

section Documents

variable {d : Document} {namePrefix : String} {m : Metadata} {ws : List Warning}

/-- In a resolved document every pointer that occurs in the table or in an operation has an entry,
and every entry is that of a schema of the document. -/
theorem resolve_closed (h : d.resolve namePrefix = .ok (m, ws)) :
    (∀ u ∈ m.descriptors, ∀ q ∈ u.pointers, ∃ v, m.refs.get? q = some v) ∧
      ∀ p ∈ m.refs.keys, ∃ s, d.schema? p = some s := by
  obtain ⟨outcomes, ho, hops, hv⟩ := exists_outcomes h
  have hs : Settled d m.refs := ⟨_, hv⟩
  refine ⟨fun u hu q hq => RefTable.exists_get?_of_mem_keys ?_, fun p hp => ?_⟩
  · rcases List.mem_append.1 hu with hu | hu
    · obtain ⟨⟨p, v⟩, he, rfl⟩ := List.mem_map.1 hu
      exact hs.mem_keys (RefTable.get?_of_mem_entries he) hq
    · rw [hops] at hu
      obtain ⟨o, ho', hu⟩ := List.mem_flatMap.1 hu
      obtain ⟨⟨r, asked⟩, hr, rfl⟩ := List.mem_map.1 ho'
      obtain ⟨e, -, hasked, -⟩ := exists_of_mem_right ho hr
      exact Settled.subset_keys hv (List.mem_flatMap.2 ⟨_, hr, hasked u hu hq⟩)
  · obtain ⟨u, hu⟩ := RefTable.exists_get?_of_mem_keys hp
    exact schema?_of_expansion? (hs.get? hu)

theorem resolve_closed_loop :
    loopDocument.resolve "Api" = .ok (loopMetadata, []) ∧
      (∀ u ∈ loopMetadata.descriptors, ∀ q ∈ u.pointers, ∃ v, loopMetadata.refs.get? q = some v) ∧
      ∀ p ∈ loopMetadata.refs.keys, ∃ s, loopDocument.schema? p = some s :=
  ⟨resolve_loopDocument, resolve_closed resolve_loopDocument⟩

/-- In a resolved document every cycle of the table has a marked pointer, and every marked pointer
lies on a cycle, on which no pointer occurs twice. -/
theorem resolve_marks_cycles (h : d.resolve namePrefix = .ok (m, ws)) :
    (∀ c, m.refs.IsCycle c → ∃ p ∈ c, m.refs.isRecursive p = true) ∧
      ∀ p, m.refs.isRecursive p = true → ∃ c, m.refs.IsCycle c ∧ p ∈ c ∧ c.Nodup := by
  have hs : Settled d m.refs := settled_of_resolve h
  refine ⟨fun c hc => hs.exists_isRecursive_of_isCycle hc, fun p hp => ?_⟩
  obtain ⟨rest, hc, hn⟩ := RefTable.exists_simple_cycle (hs.onCycle_of_isRecursive hp)
  exact ⟨p :: rest, hc, List.mem_cons_self, hn⟩

theorem resolve_marks_cycles_loop :
    loopDocument.resolve "Api" = .ok (loopMetadata, []) ∧
      (∀ c, loopMetadata.refs.IsCycle c → ∃ p ∈ c, loopMetadata.refs.isRecursive p = true) ∧
      ∃ c, loopMetadata.refs.IsCycle c ∧ nodePointer ∈ c ∧ c.Nodup :=
  have h := resolve_marks_cycles resolve_loopDocument
  ⟨resolve_loopDocument, h.1, h.2 nodePointer rfl⟩

end Documents

end Resolve
end ApiContract
