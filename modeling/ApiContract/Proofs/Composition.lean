import ApiContract.Proofs.Documents

/-!
# Documents and their operations

**Input:** a document, and the same document with one of its operations alone.

**Results:**

* `exists_resolve_iff`: a document is resolved if each of its operations is resolved alone;
* `resolve_eq_union`: then its operations are theirs, and its table is the union of their tables;
* `resolve_compositional`: both, with what follows for the order of the paths, and that schemas
  which no operation leads to do not matter;
* `resolve_compositional_links`: two operations of which both lead to one schema, and a schema to
  which none does.
-/

namespace ApiContract

/-- A path with one of its operations alone, which keeps the parameters that it shares. -/
def Document.PathItem.only (item : Document.PathItem) (o : Document.Operation) :
    Method → Document.PathItem
  | .get => { get := some o, parameters := item.parameters }
  | .post => { post := some o, parameters := item.parameters }
  | .put => { put := some o, parameters := item.parameters }
  | .patch => { patch := some o, parameters := item.parameters }
  | .delete => { delete := some o, parameters := item.parameters }

/-- A document with one of its operations alone. -/
def Document.only (d : Document) (e : Resolve.Endpoint) : Document :=
  { d with paths := [(e.1, e.2.2.1.only e.2.2.2 e.2.1)] }

/-- A document with its operations at other paths, or in another order. -/
def Document.withPaths (d : Document) (paths : List (String × Document.PathItem)) : Document :=
  { d with paths }

/-- A document with other schemas. -/
def Document.withSchemas (d : Document) (schemas : List (String × Document.Schema)) : Document :=
  { d with components := { d.components with schemas } }

namespace Resolve

section Composition

variable {d : Document} {namePrefix name : String} {m m' : Metadata} {ws ws' : List Warning}
  {e : Endpoint}

theorem operationsOf_only (d : Document) (e : Endpoint) :
    operationsOf (d.only e) = [(e.1, e.2.1, e.2.2.1.only e.2.2.2 e.2.1, e.2.2.2)] := by
  obtain ⟨path, method, item, o⟩ := e
  cases method <;> rfl

theorem agree_of_components {d' : Document} (hc : d'.components = d.components)
    (hs : d'.security = d.security) : Agree d d' fun _ => True where
  schemas := by
    intro p _
    unfold Document.schema?
    rw [hc]
  closed := fun _ _ _ _ _ _ => trivial
  parameters := by rw [hc]
  schemes := by rw [hc]
  security := hs

theorem parameters_only (item : Document.PathItem) (o : Document.Operation) (method : Method) :
    (item.only o method).parameters = item.parameters := by
  cases method <;> rfl

/-- An operation alone is resolved as it is resolved first. -/
theorem endpoint_only (d : Document) (e : Endpoint) :
    endpoint (d.only e) (e.1, e.2.1, e.2.2.1.only e.2.2.2 e.2.1, e.2.2.2) = endpoint d e := by
  have hagree : Agree d (d.only e) fun _ => True := agree_of_components rfl rfl
  rw [endpoint_congr hagree fun _ _ _ _ => trivial]
  unfold endpoint operation parameters
  simp only [parameters_only]

theorem resolve_only_eq_ok_iff :
    (d.only e).resolve namePrefix = .ok (m, ws) ↔
      ∃ name o σ, Naming.typeName? namePrefix = some name ∧ (endpoint d e).run {} = .ok (o, σ) ∧
        m = { namePrefix := name, operations := [o], refs := σ.table } ∧ ws = σ.warnings := by
  rw [resolve_eq_ok_iff, operationsOf_only]
  constructor
  · rintro ⟨name, os, σ, hname, hr, rfl, rfl⟩
    rw [List.mapM_cons, List.mapM_nil, endpoint_only] at hr
    obtain ⟨o, σ₁, ho, hr⟩ := run_bind_eq_ok.1 hr
    obtain ⟨rfl, rfl⟩ := run_pure_eq_ok.1 hr
    exact ⟨name, o, σ₁, hname, ho, rfl, rfl⟩
  · rintro ⟨name, o, σ, hname, ho, rfl, rfl⟩
    refine ⟨name, [o], σ, hname, ?_, rfl, rfl⟩
    rw [List.mapM_cons, List.mapM_nil, endpoint_only]
    exact run_bind_eq_ok.2 ⟨o, σ, ho, rfl⟩

/-- What an operation yields it yields alone. -/
theorem resolve_only_of_yields {o : Operation} {asked : List String}
    (hy : Yields d [] (endpoint d e) o asked) (h : (d.only e).resolve namePrefix = .ok (m, ws)) :
    m.operations = [o] ∧ Visit d [] asked .empty m.refs := by
  obtain ⟨name, o', σ, -, hr, rfl, rfl⟩ := resolve_only_eq_ok_iff.1 h
  obtain ⟨σ', hr', hv⟩ := hy {} (.empty d) (List.nil_subset _)
  obtain ⟨rfl, rfl⟩ := Prod.mk.inj (Except.ok.inj (hr.symm.trans hr'))
  exact ⟨rfl, hv⟩

/-- A document is resolved if each of its operations is resolved alone. -/
theorem exists_resolve_iff (hname : Naming.typeName? namePrefix = some name) :
    (∃ r, d.resolve namePrefix = .ok r) ↔
      ∀ e ∈ operationsOf d, ∃ r, (d.only e).resolve namePrefix = .ok r := by
  constructor
  · rintro ⟨⟨m, ws⟩, h⟩ e he
    obtain ⟨outcomes, ho, -, -⟩ := exists_outcomes h
    obtain ⟨o, -, -, hy⟩ := exists_of_mem_right ho.flip he
    obtain ⟨σ, hr, -⟩ := hy {} (.empty d) (List.nil_subset _)
    exact ⟨_, resolve_only_eq_ok_iff.2 ⟨name, o.1, σ, hname, hr, rfl, rfl⟩⟩
  · intro h
    rcases outcomes_or_fails d with ⟨outcomes, -, hy⟩ | ⟨⟨e, he, hf⟩, -⟩
    · obtain ⟨σ, hr, -⟩ := hy {} (.empty d) (List.nil_subset _)
      exact ⟨_, resolve_eq_ok_iff.2 ⟨name, _, σ, hname, hr, rfl, rfl⟩⟩
    · obtain ⟨⟨m, ws⟩, hr⟩ := h e he
      obtain ⟨_, _, _, -, hr, -, -⟩ := resolve_only_eq_ok_iff.1 hr
      obtain ⟨err, hf⟩ := hf {} (.empty d) (List.nil_subset _)
      cases hr.symm.trans hf

/-- A resolved document has the operations of its parts, and in its table what theirs have. -/
theorem resolve_eq_union (h : d.resolve namePrefix = .ok (m, ws)) {single : Endpoint → Metadata}
    (hs : ∀ e ∈ operationsOf d, ∃ ws, (d.only e).resolve namePrefix = .ok (single e, ws)) :
    m.operations = (operationsOf d).flatMap (fun e => (single e).operations) ∧
      ∀ p u, m.refs.get? p = some u ↔
        ∃ e ∈ operationsOf d, (single e).refs.get? p = some u := by
  obtain ⟨outcomes, ho, hops, hv⟩ := exists_outcomes h
  have hparts : List.Forall₂ (fun e o => (single e).operations = [o.1] ∧
      Visit d [] o.2 .empty (single e).refs) (operationsOf d) outcomes := by
    refine (List.forall₂_and_left _ _).2 ⟨hs, ho⟩ |>.imp fun e o h => ?_
    obtain ⟨⟨ws, hr⟩, -, hy⟩ := h
    exact resolve_only_of_yields hy hr
  refine ⟨?_, fun p u => ?_⟩
  · rw [hops]
    exact map_eq_flatMap (hparts.imp fun e o h => h.1)
  · rw [Settled.get?_iff_of_visit hv]
    constructor
    · rintro ⟨⟨q, hq, hl⟩, hu⟩
      obtain ⟨o, ho', hq⟩ := List.mem_flatMap.1 hq
      obtain ⟨e, he, -, hv'⟩ := exists_of_mem_right hparts ho'
      exact ⟨e, he, (Settled.get?_iff_of_visit hv').2 ⟨⟨q, hq, hl⟩, hu⟩⟩
    · rintro ⟨e, he, hu⟩
      obtain ⟨o, ho', -, hv'⟩ := exists_of_mem_right hparts.flip he
      obtain ⟨⟨q, hq, hl⟩, hu⟩ := (Settled.get?_iff_of_visit hv').1 hu
      exact ⟨⟨q, List.mem_flatMap.2 ⟨o, ho', hq⟩, hl⟩, hu⟩

theorem operationsOf_perm {paths : List (String × Document.PathItem)} (hp : d.paths.Perm paths) :
    (operationsOf d).Perm (operationsOf (d.withPaths paths)) :=
  hp.flatMap_right _

/-- The order of the paths is that of the operations, and nothing else. -/
theorem resolve_withPaths (hname : Naming.typeName? namePrefix = some name)
    {paths : List (String × Document.PathItem)} (hp : d.paths.Perm paths) :
    ((∃ r, d.resolve namePrefix = .ok r) ↔
        ∃ r, (d.withPaths paths).resolve namePrefix = .ok r) ∧
      ∀ m ws m' ws', d.resolve namePrefix = .ok (m, ws) →
        (d.withPaths paths).resolve namePrefix = .ok (m', ws') →
        m.operations.Perm m'.operations ∧ ∀ p, m'.refs.get? p = m.refs.get? p := by
  have hperm : (operationsOf d).Perm (operationsOf (d.withPaths paths)) := operationsOf_perm hp
  refine ⟨?_, fun m ws m' ws' h h' => ?_⟩
  · rw [exists_resolve_iff hname, exists_resolve_iff hname]
    constructor
    · intro h e he
      exact h e (hperm.mem_iff.2 he)
    · intro h e he
      exact h e (hperm.mem_iff.1 he)
  · have hall := (exists_resolve_iff hname).1 ⟨_, h⟩
    -- What each operation is resolved to alone, whatever it is for what is no operation.
    let single (e : Endpoint) : Metadata :=
      match (d.only e).resolve namePrefix with
      | .ok r => r.1
      | .error _ => default
    have hsingle : ∀ e ∈ operationsOf d, ∃ ws,
        (d.only e).resolve namePrefix = .ok (single e, ws) := by
      intro e he
      obtain ⟨r, hr⟩ := hall e he
      exact ⟨r.2, by simp only [single, hr]⟩
    obtain ⟨hops, hget⟩ := resolve_eq_union h hsingle
    obtain ⟨hops', hget'⟩ := resolve_eq_union h' fun e he => hsingle e (hperm.mem_iff.2 he)
    refine ⟨?_, fun p => Option.ext fun u => ?_⟩
    · rw [hops, hops']
      exact hperm.flatMap_right _
    · rw [hget, hget']
      constructor
      · rintro ⟨e, he, hu⟩
        exact ⟨e, hperm.mem_iff.2 he, hu⟩
      · rintro ⟨e, he, hu⟩
        exact ⟨e, hperm.mem_iff.1 he, hu⟩

/-- Schemas that no operation leads to do not matter. -/
theorem resolve_withSchemas {schemas : List (String × Document.Schema)}
    (hs : ∀ p, Reached d p → (d.withSchemas schemas).schema? p = d.schema? p) :
    (d.withSchemas schemas).resolve namePrefix = d.resolve namePrefix := by
  have hagree : Agree d (d.withSchemas schemas) (Reached d) := {
    schemas := hs
    closed := fun _ _ _ hp hs hq => .schema hp hs hq
    parameters := rfl
    schemes := rfl
    security := rfl }
  have hops : (operationsOf (d.withSchemas schemas)).mapM (endpoint (d.withSchemas schemas)) =
      (operationsOf d).mapM (endpoint d) :=
    mapM_congr fun e he => endpoint_congr hagree fun s hs p hp => .endpoint he hs hp
  rw [resolve_eq, resolve_eq, hops]

/-- Resolution is compositional.  With a usable prefix a document is resolved if and only if each of
its operations is resolved alone.  Then its operations are theirs, one after another, and its table
is the union of their tables, which agree.  So the order of the paths is that of the operations and
nothing else, and schemas that no operation leads to do not matter. -/
theorem resolve_compositional (hname : Naming.typeName? namePrefix = some name) :
    ((∃ r, d.resolve namePrefix = .ok r) ↔
        ∀ e ∈ operationsOf d, ∃ r, (d.only e).resolve namePrefix = .ok r) ∧
      (∀ m ws (single : Endpoint → Metadata), d.resolve namePrefix = .ok (m, ws) →
        (∀ e ∈ operationsOf d, ∃ ws, (d.only e).resolve namePrefix = .ok (single e, ws)) →
        m.operations = (operationsOf d).flatMap (fun e => (single e).operations) ∧
          (∀ p u, m.refs.get? p = some u ↔
            ∃ e ∈ operationsOf d, (single e).refs.get? p = some u) ∧
          ∀ e ∈ operationsOf d, ∀ e' ∈ operationsOf d, ∀ p u u',
            (single e).refs.get? p = some u → (single e').refs.get? p = some u' → u = u') ∧
      (∀ paths, d.paths.Perm paths →
        ((∃ r, d.resolve namePrefix = .ok r) ↔
            ∃ r, (d.withPaths paths).resolve namePrefix = .ok r) ∧
          ∀ m ws m' ws', d.resolve namePrefix = .ok (m, ws) →
            (d.withPaths paths).resolve namePrefix = .ok (m', ws') →
            m.operations.Perm m'.operations ∧ ∀ p, m'.refs.get? p = m.refs.get? p) ∧
      ∀ schemas, (∀ p, Reached d p → (d.withSchemas schemas).schema? p = d.schema? p) →
        (d.withSchemas schemas).resolve namePrefix = d.resolve namePrefix := by
  refine ⟨exists_resolve_iff hname, fun m ws single h hs => ?_,
    fun paths hp => resolve_withPaths hname hp, fun schemas hs => resolve_withSchemas hs⟩
  obtain ⟨hops, hget⟩ := resolve_eq_union h hs
  refine ⟨hops, hget, fun e he e' he' p u u' hu hu' => ?_⟩
  have h₁ : m.refs.get? p = some u := (hget p u).2 ⟨e, he, hu⟩
  have h₂ : m.refs.get? p = some u' := (hget p u').2 ⟨e', he', hu'⟩
  exact Option.some.inj (h₁.symm.trans h₂)

end Composition

/-! ### Two operations with one schema -/

section Links

/-- An operation whose response has the other name of the record. -/
def listLinks : Document.Operation where
  operationId := some "listLinks"
  responses := [("200", {
    description := none
    headers := []
    content := [("application/json", { schema := some { ref := some linkPointer } })] })]

/-- The paths of both operations. -/
def linksPaths : List (String × Document.PathItem) :=
  [("/nodes", { get := some listNodes }), ("/links", { get := some listLinks })]

/-- The schemas, and one that no operation leads to. -/
def linksSchemas : List (String × Document.Schema) :=
  loopDocument.components.schemas ++ [("Unused", { type := some "string" })]

/-- A document with both operations. -/
def linksDocument : Document :=
  (loopDocument.withPaths linksPaths).withSchemas linksSchemas

/-- What the second operation is resolved to. -/
def linksOperation : Operation where
  path := "/links"
  method := .get
  operationId := "listLinks"
  summary := none
  params := []
  requestBody := none
  responseBody := {
    className := "ListLinksResponse"
    variants := [(.code 200,
      { name := "Link", headers := none, payload := .body (.ref linkPointer) false })] }

/-- What the document is resolved to. -/
def linksMetadata : Metadata where
  namePrefix := "Api"
  operations := [loopOperation, linksOperation]
  refs := loopProgress.table

/-- The operations lead to the record and to its other name. -/
theorem reached_links {p : String} (h : Reached (loopDocument.withPaths linksPaths) p) :
    p = nodePointer ∨ p = linkPointer := by
  induction h with
  | endpoint he hs hp =>
      have hes : operationsOf (loopDocument.withPaths linksPaths) =
          [("/nodes", .get, { get := some listNodes }, listNodes),
            ("/links", .get, { get := some listLinks }, listLinks)] := rfl
      rw [hes] at he
      simp only [List.mem_cons, List.not_mem_nil, or_false] at he
      rcases he with rfl | rfl
      · obtain rfl := List.mem_singleton.1 hs
        cases hp with
        | ref href => exact Or.inl (Option.some.inj href).symm
        | item href => cases href
        | property href => cases href
      · obtain rfl := List.mem_singleton.1 hs
        cases hp with
        | ref href => exact Or.inr (Option.some.inj href).symm
        | item href => cases href
        | property href => cases href
  | schema _ hs hq ih =>
      rcases ih with rfl | rfl
      · obtain rfl := Option.some.inj hs
        cases hq with
        | ref href => cases href
        | item _ _ harray => exact absurd harray (by decide)
        | property _ _ _ hmem ht =>
            obtain ⟨-, rfl⟩ := Prod.mk.inj (List.mem_singleton.1 hmem)
            cases ht with
            | ref href => exact Or.inr (Option.some.inj href).symm
            | item href => cases href
            | property href => cases href
      · obtain rfl := Option.some.inj hs
        cases hq with
        | ref href => exact Or.inl (Option.some.inj href).symm
        | item href => cases href
        | property href => cases href

/-- The second operation finds its schema in the table. -/
theorem run_operation_links :
    (operation (loopDocument.withPaths linksPaths) "/links" .get { get := some listLinks }
      listLinks).run loopProgress = .ok (linksOperation, loopProgress) := by
  have hbody : (jsonBody (loopDocument.withPaths linksPaths) "listLinks" "ListLinksResponse"
      (.code 200) { ref := some linkPointer }).run loopProgress =
      .ok (("Link", .ref linkPointer), loopProgress) :=
    run_jsonBody_of_named rfl (run_reference_of_mem_keys (by decide)) rfl rfl
  have hresponses : (responseBody (loopDocument.withPaths linksPaths) "listLinks" listLinks).run
      loopProgress = .ok (linksOperation.responseBody, loopProgress) := by
    refine run_responseBody_of "ListLinks" rfl ?_
    exact run_responseVariants_cons rfl (run_responseVariant_json rfl hbody rfl) rfl rfl rfl
  exact run_operation_of rfl rfl rfl rfl rfl rfl (run_requestBody_none rfl) hresponses

theorem resolve_linksPaths :
    (loopDocument.withPaths linksPaths).resolve "Api" = .ok (linksMetadata, []) := by
  refine resolve_eq_ok_iff.2 ⟨"Api", linksMetadata.operations, loopProgress, rfl, ?_, rfl, rfl⟩
  have hes : operationsOf (loopDocument.withPaths linksPaths) =
      [("/nodes", .get, { get := some listNodes }, listNodes),
        ("/links", .get, { get := some listLinks }, listLinks)] := rfl
  -- The first operation is resolved as in the document with this operation alone.
  have hagree : Agree loopDocument (loopDocument.withPaths linksPaths) fun _ => True := {
    schemas := fun _ _ => rfl
    closed := fun _ _ _ _ _ _ => trivial
    parameters := rfl
    schemes := rfl
    security := rfl }
  have hsame := endpoint_congr hagree (e := ("/nodes", .get, { get := some listNodes }, listNodes))
    fun _ _ _ _ => trivial
  rw [hes]
  refine run_mapM_cons ?_ (run_mapM_cons run_operation_links rfl)
  rw [hsame]
  exact run_operation_node

theorem resolve_compositional_links :
    Naming.typeName? "Api" = some "Api" ∧
      linksDocument.resolve "Api" = .ok (linksMetadata, []) ∧
      (∃ single : Endpoint → Metadata,
        (∀ e ∈ operationsOf linksDocument,
          ∃ ws, (linksDocument.only e).resolve "Api" = .ok (single e, ws)) ∧
        linksMetadata.operations =
          (operationsOf linksDocument).flatMap (fun e => (single e).operations) ∧
        ∀ p u, linksMetadata.refs.get? p = some u ↔
          ∃ e ∈ operationsOf linksDocument, (single e).refs.get? p = some u) ∧
      (∃ m ws, (linksDocument.withPaths linksPaths.reverse).resolve "Api" = .ok (m, ws) ∧
        linksMetadata.operations.Perm m.operations ∧
        ∀ p, m.refs.get? p = linksMetadata.refs.get? p) ∧
      (∀ p, Reached (loopDocument.withPaths linksPaths) p →
        linksDocument.schema? p = (loopDocument.withPaths linksPaths).schema? p) := by
  have hname : Naming.typeName? "Api" = some "Api" := rfl
  have hschemas : ∀ p, Reached (loopDocument.withPaths linksPaths) p →
      linksDocument.schema? p = (loopDocument.withPaths linksPaths).schema? p := by
    intro p hp
    rcases reached_links hp with rfl | rfl
    · rfl
    · rfl
  have hresolve : linksDocument.resolve "Api" = .ok (linksMetadata, []) := by
    rw [← resolve_linksPaths]
    exact (resolve_compositional (d := loopDocument.withPaths linksPaths) hname).2.2.2 _ hschemas
  obtain ⟨hsingle, hunion, hpaths, -⟩ := resolve_compositional (d := linksDocument) hname
  refine ⟨hname, hresolve, ?_, ?_, hschemas⟩
  · have halone : ∀ e, ∃ m : Metadata, e ∈ operationsOf linksDocument →
        ∃ ws, (linksDocument.only e).resolve "Api" = .ok (m, ws) := by
      intro e
      by_cases he : e ∈ operationsOf linksDocument
      · obtain ⟨⟨m, ws⟩, hm⟩ := hsingle.1 ⟨_, hresolve⟩ e he
        exact ⟨m, fun _ => ⟨ws, hm⟩⟩
      · exact ⟨linksMetadata, fun h => absurd h he⟩
    choose single hone using halone
    obtain ⟨hoperations, hrefs, -⟩ := hunion _ _ single hresolve hone
    exact ⟨single, hone, hoperations, hrefs⟩
  · obtain ⟨hiff, hsame⟩ := hpaths _ linksPaths.reverse_perm.symm
    obtain ⟨⟨m, ws⟩, hm⟩ := hiff.1 ⟨_, hresolve⟩
    obtain ⟨hperm, hget⟩ := hsame _ _ _ _ hresolve hm
    exact ⟨m, ws, hm, hperm, hget⟩

end Links

end Resolve
end ApiContract
