import ApiContract.Document.Load
import ApiContract.Proofs.ClientArguments
import ApiContract.Proofs.Exchanges
import ApiContract.Proofs.HandlerArguments
import ApiContract.Proofs.Words

/-!
# Operations, methods and routes

**Input:** a resolved document with its contract, controller and client.

Contract, controller and client go through the operations in their order, and name what they make of
an operation after its `operationId`.  The router regroups the operations by path.  All this is said
of the tokens that are printed, by the rules for their texts.

**Results:**

* `routed_routes`: the router registers every path once and has one entry for each operation;
* `nodup_paths_of_ofText`: a document that is read from a text has every path once;
* `OneToOne`: every operation has one method, one handler, one entry of the router and one client
  method, and there are no others;
* `operations_one_to_one`: this holds of resolved documents, and identifiers are different if and
  only if no two `operationId`s have the same words;
* `methods_share_name`: two `operationId`s may have the same words.
-/

namespace ApiContract
namespace Emit

/-! ## The router -/

/-- What the router has an entry for: a path and a method, with the identifier of the handler. -/
abbrev Entry := String × Method × String

/-- The identifier of the contract method, the handler and the client method of an operation. -/
def methodIdent (o : Operation) : String :=
  Naming.fieldIdent o.operationId

/-- The entry of the router for an operation. -/
def entryOf (o : Operation) : Entry :=
  (o.path, o.method, methodIdent o)

/-- The entries of a route. -/
def Route.flat (r : Route) : List Entry :=
  r.entries.map fun e => (r.path, e)

/-- Routes of operations. -/
structure Routed (os : List Operation) (rs : List Route) : Prop where
  /-- Every path is registered once. -/
  paths : (rs.map (·.path)).Nodup
  /-- A route has an entry. -/
  entries : ∀ r ∈ rs, r.entries ≠ []
  /-- There is one entry for each operation, and no other. -/
  perm : (rs.flatMap (·.flat)).Perm (os.map entryOf)

section Router

variable {os : List Operation} {rs : List Route} {o : Operation} {path : String}
  {entry : Method × String}

/-- A path that is registered stays where it is, and a new one is registered at the end. -/
theorem map_path_addRoute (path : String) (entry : Method × String) (rs : List Route) :
    (addRoute path entry rs).map (·.path) =
      if path ∈ rs.map (·.path) then rs.map (·.path) else rs.map (·.path) ++ [path] := by
  induction rs with
  | nil => rfl
  | cons r rs ih =>
      rw [addRoute]
      by_cases hr : r.path = path
      · simp [hr]
      · have hmem : path ∈ (r :: rs).map (·.path) ↔ path ∈ rs.map (·.path) := by
          simp [Ne.symm hr]
        rw [if_neg hr, List.map_cons, ih]
        simp only [hmem]
        split <;> rfl

theorem nodup_paths_addRoute (h : (rs.map (·.path)).Nodup) :
    ((addRoute path entry rs).map (·.path)).Nodup := by
  rw [map_path_addRoute]
  split
  · exact h
  · rename_i hnew
    rw [← List.concat_eq_append, List.nodup_concat]
    exact ⟨hnew, h⟩

theorem entries_addRoute_ne_nil (h : ∀ r ∈ rs, r.entries ≠ []) :
    ∀ r ∈ addRoute path entry rs, r.entries ≠ [] := by
  induction rs with
  | nil => simp [addRoute]
  | cons r rs ih =>
      obtain ⟨hr, hrs⟩ := List.forall_mem_cons.1 h
      rw [addRoute]
      split
      · exact List.forall_mem_cons.2 ⟨by simp, hrs⟩
      · exact List.forall_mem_cons.2 ⟨hr, ih hrs⟩

/-- An entry that is added is the only new one. -/
theorem flat_addRoute (path : String) (entry : Method × String) (rs : List Route) :
    ((addRoute path entry rs).flatMap (·.flat)).Perm (rs.flatMap (·.flat) ++ [(path, entry)]) := by
  induction rs with
  | nil => exact .refl _
  | cons r rs ih =>
      rw [addRoute]
      split
      · rename_i hr
        have hflat : Route.flat { r with entries := r.entries ++ [entry] } =
            r.flat ++ [(path, entry)] := by
          simp [Route.flat, hr]
        rw [List.flatMap_cons, List.flatMap_cons, hflat, List.append_assoc, List.append_assoc]
        exact List.perm_append_comm.append_left r.flat
      · rw [List.flatMap_cons, List.flatMap_cons, List.append_assoc]
        exact ih.append_left r.flat

/-- One more operation gets one more entry. -/
theorem Routed.step (h : Routed os rs) (o : Operation) :
    Routed (os ++ [o]) (addRoute o.path (o.method, methodIdent o) rs) where
  paths := nodup_paths_addRoute h.paths
  entries := entries_addRoute_ne_nil h.entries
  perm := by
    rw [List.map_append, List.map_singleton]
    exact (flat_addRoute _ _ _).trans (h.perm.append_right [entryOf o])

/-- The router registers every path once, and has one entry for each operation and no other. -/
theorem routed_routes (os : List Operation) : Routed os (routes os) := by
  have hrun : ∀ (os done : List Operation) (rs : List Route), Routed done rs →
      Routed (done ++ os)
        (os.foldl (fun rs o => addRoute o.path (o.method, methodIdent o) rs) rs) := by
    intro os
    induction os with
    | nil =>
        intro done rs h
        rw [List.append_nil]
        exact h
    | cons o os ih =>
        intro done rs h
        rw [List.append_cons]
        exact ih (done ++ [o]) _ (h.step o)
  exact hrun os [] [] ⟨List.nodup_nil, by simp, .refl _⟩

/-- If no path has a method twice, an operation has one entry in the route of its path. -/
theorem Routed.filter_eq (h : Routed os rs) (hn : (os.map fun o => (o.path, o.method)).Nodup)
    (ho : o ∈ os) :
    ∃ r ∈ rs, r.path = o.path ∧ r.entries.filter (·.1 == o.method) =
      [(o.method, methodIdent o)] := by
  have hentry : entryOf o ∈ rs.flatMap (·.flat) := h.perm.mem_iff.2 (List.mem_map_of_mem ho)
  obtain ⟨r, hr, hentry⟩ := List.mem_flatMap.1 hentry
  obtain ⟨e, he, heq⟩ := List.mem_map.1 hentry
  obtain ⟨hpath, rfl⟩ := Prod.mk.inj heq
  refine ⟨r, hr, hpath, ?_⟩
  -- Within a route a method has one entry, since path and method belong to one operation.
  have hkeys : ((rs.flatMap (·.flat)).map fun e => (e.1, e.2.1)).Nodup := by
    have hmap := h.perm.map fun e : Entry => (e.1, e.2.1)
    rw [List.map_map] at hmap
    exact hmap.nodup_iff.2 hn
  have hroute : (r.entries.map Prod.fst).Nodup := by
    have hsub : r.flat.Sublist (rs.flatMap (·.flat)) :=
      (infix_flatMap (f := fun r : Route => r.flat) hr).sublist
    have hflat := (hsub.map fun e : Entry => (e.1, e.2.1)).nodup hkeys
    rw [Route.flat, List.map_map] at hflat
    have hpairs : ((r.entries.map Prod.fst).map fun m => (r.path, m)).Nodup := by
      rw [List.map_map]
      exact hflat
    exact hpairs.of_map _
  have hunique : ∀ a ∈ r.entries, a.1 = o.method → a = (o.method, methodIdent o) :=
    fun a ha hm => List.inj_on_of_nodup_map hroute ha he hm
  have hfind := find?_eq_some_of_unique (p := fun a : Method × String => a.1 == o.method) he
    (by simp) fun a ha hm => hunique a ha (by simpa using hm)
  rw [filter_eq_toList_find? (hroute.of_map _), hfind]
  · rfl
  · intro a ha b hb hma hmb
    rw [hunique a ha (by simpa using hma), hunique b hb (by simpa using hmb)]

end Router

/-! ## Methods, handlers and client methods -/

section Modules

variable {refs : RefTable} {o : Operation} {m : Metadata} {s : SourceModule}

theorem ident_of_contractMethod {c : ContractMethod} (h : contractMethod o = .ok c) :
    c.ident = methodIdent o := by
  obtain ⟨params, -, h⟩ := bind_eq_ok.1 h
  obtain rfl := Except.ok.inj h
  rfl

theorem entry_of_handler {k : Handler} (h : handler refs o = .ok k) :
    (k.path, k.method, k.ident) = entryOf o := by
  unfold handler at h
  obtain ⟨params, -, h⟩ := bind_eq_ok.1 h
  obtain ⟨reads, -, h⟩ := bind_eq_ok.1 h
  dsimp only at h
  split at h
  · obtain ⟨body, -, h⟩ := bind_eq_ok.1 h
    obtain ⟨arms, -, h⟩ := bind_eq_ok.1 h
    obtain rfl := Except.ok.inj h
    rfl
  · obtain ⟨body, -, h⟩ := bind_eq_ok.1 h
    obtain ⟨arms, -, h⟩ := bind_eq_ok.1 h
    obtain rfl := Except.ok.inj h
    rfl

theorem entry_of_clientMethod {k : ClientMethod} (h : clientMethod refs o = .ok k) :
    (k.path, k.method, k.ident) = entryOf o := by
  unfold clientMethod at h
  obtain ⟨params, -, h⟩ := bind_eq_ok.1 h
  dsimp only at h
  split at h
  · obtain ⟨body, -, h⟩ := bind_eq_ok.1 h
    obtain ⟨arms, -, h⟩ := bind_eq_ok.1 h
    obtain rfl := Except.ok.inj h
    rfl
  · obtain ⟨body, -, h⟩ := bind_eq_ok.1 h
    obtain ⟨arms, -, h⟩ := bind_eq_ok.1 h
    obtain rfl := Except.ok.inj h
    rfl

/-- The contract ends with the methods of the operations. -/
theorem methods_of_contractModule (h : contractModule m = .ok s) :
    ∃ cs texts, m.operations.mapM contractMethod = .ok cs ∧
      List.Forall₂ ContractMethodText cs texts ∧ Code.braces texts.flatten <:+ s.code := by
  obtain ⟨_, -, h⟩ := bind_eq_ok.1 h
  obtain ⟨cs, hcs, h⟩ := bind_eq_ok.1 h
  obtain rfl := Except.ok.inj h
  obtain ⟨texts, htexts, hcode⟩ := Pieces.flatMap ContractMethod.text cs
  refine ⟨cs, texts, hcs, htexts, ?_⟩
  rw [← hcode]
  exact List.suffix_append _ _

/-- The module of the handlers ends with the controller and the handlers of the operations. -/
theorem handlers_of_controllerModule (h : controllerModule m = .ok s) :
    ∃ ks head texts, m.operations.mapM (handler m.refs) = .ok ks ∧
      ControllerText (contractName m) (controllerName m) (routes m.operations) head ∧
      List.Forall₂ (HandlerText (contractName m)) ks texts ∧ head ++ texts.flatten <:+ s.code := by
  obtain ⟨_, -, h⟩ := bind_eq_ok.1 h
  obtain ⟨ks, hks, h⟩ := bind_eq_ok.1 h
  obtain rfl := Except.ok.inj h
  obtain ⟨texts, htexts, hcode⟩ := Pieces.flatMap (Handler.text (contractName m)) ks
  refine ⟨ks, _, texts, hks, controllerCode_text _ _ _, htexts, ?_⟩
  rw [← hcode]
  exact ⟨_, (List.append_assoc _ _ _).symm⟩

/-- The module of the client ends with the client and its methods. -/
theorem methods_of_clientModule (h : clientModule m = .ok s) :
    ∃ ks text, m.operations.mapM (clientMethod m.refs) = .ok ks ∧
      ClientText (clientName m) ks text ∧ text <:+ s.code := by
  obtain ⟨_, -, h⟩ := bind_eq_ok.1 h
  obtain ⟨ks, hks, h⟩ := bind_eq_ok.1 h
  obtain rfl := Except.ok.inj h
  exact ⟨ks, _, hks, clientCode_text _ _, List.suffix_append _ _⟩

/-- A controller makes a router of its routes. -/
theorem ControllerText.router {contract controller : String} {rs : List Route} {c : Code}
    (h : ControllerText contract controller rs c) :
    ∃ texts, List.Forall₂ RouteText rs texts ∧
      Code.flat "::axum::Router::new()" ++ texts.flatten ++
        Code.flat ".with_state(self.server)" <:+:
        c := by
  obtain ⟨_, ⟨texts, htexts, rfl⟩, rfl⟩ := h
  refine ⟨texts, htexts, ?_⟩
  refine List.IsInfix.trans ?_ ((Code.infix_braces _).trans (List.suffix_append _ _).isInfix)
  -- Behind the function that makes the router stands the one that adds its routes to another.
  iterate 3 apply List.infix_append_of_infix_left
  exact List.infix_append_of_infix_right (Code.infix_braces _)

end Modules

end Emit

/-! ## Paths and methods of documents -/

namespace Document

/-- A document that is read has every path once. -/
theorem nodup_paths_of_read? {room : Nat} {n : Node} {d : Document} (h : read? room n = some d) :
    (d.paths.map Prod.fst).Nodup := by
  unfold read? at h
  obtain ⟨slots, -, h⟩ := Option.bind_eq_some_iff.1 h
  split at h
  · obtain ⟨openapi, -, h⟩ := Option.bind_eq_some_iff.1 h
    obtain ⟨info, -, h⟩ := Option.bind_eq_some_iff.1 h
    obtain ⟨paths, hpaths, h⟩ := Option.bind_eq_some_iff.1 h
    obtain ⟨components, -, h⟩ := Option.bind_eq_some_iff.1 h
    obtain ⟨security, -, h⟩ := Option.bind_eq_some_iff.1 h
    obtain rfl := Option.some.inj h
    unfold Node.orDefault? at hpaths
    split at hpaths
    · obtain rfl := Option.some.inj hpaths
      exact List.nodup_nil
    · exact Node.nodup_keys_of_map? hpaths
  · cases h

/-- A document from a text has every path once, in either language. -/
theorem nodup_paths_of_ofText {dialect : Dialect} {text : String} {d : Document}
    (h : ofText dialect text = .ok d) : (d.paths.map Prod.fst).Nodup := by
  unfold ofText at h
  dsimp only at h
  split at h
  · rename_i d' hread
    obtain rfl := Except.ok.inj h
    cases dialect with
    | json =>
        obtain ⟨t, -, hd⟩ := Option.bind_eq_some_iff.1 hread
        exact nodup_paths_of_read? hd
    | yaml =>
        obtain ⟨n, -, hd⟩ := Option.bind_eq_some_iff.1 hread
        exact nodup_paths_of_read? hd
  · cases h

end Document

namespace Resolve

section Endpoints

variable {d : Document} {namePrefix : String} {m : Metadata} {ws : List Warning}

theorem nodup_methodsOf (item : Document.PathItem) : ((methodsOf item).map Prod.fst).Nodup := by
  have hsub : ∀ xs : List (Method × Option Document.Operation),
      ((xs.filterMap fun e => e.2.map fun o => (e.1, o)).map Prod.fst).Sublist
        (xs.map Prod.fst) := by
    intro xs
    induction xs with
    | nil => exact .slnil
    | cons x xs ih =>
        obtain ⟨method, o?⟩ := x
        cases o? with
        | none => exact ih.cons method
        | some o => exact ih.cons_cons method
  exact (hsub _).nodup (by decide : Method.all.Nodup)

/-- If a document has every path once, no path has a method twice. -/
theorem nodup_operationsOf (h : (d.paths.map Prod.fst).Nodup) :
    ((operationsOf d).map fun e => (e.1, e.2.1)).Nodup := by
  unfold operationsOf
  rw [List.map_flatMap, List.nodup_flatMap]
  constructor
  · rintro ⟨path, item⟩ -
    have hmethods := (nodup_methodsOf item).map (f := fun m : Method => (path, m))
      fun _ _ he => (Prod.mk.inj he).2
    rw [List.map_map] at hmethods ⊢
    exact hmethods
  · refine (List.pairwise_map.1 h).imp fun hne => ?_
    intro key hkey hkey'
    obtain ⟨e, he, rfl⟩ := List.mem_map.1 hkey
    obtain ⟨e', he', heq⟩ := List.mem_map.1 hkey'
    obtain ⟨x, -, rfl⟩ := List.mem_map.1 he
    obtain ⟨x', -, rfl⟩ := List.mem_map.1 he'
    exact hne (Prod.mk.inj heq).1.symm

/-- An operation is resolved for the path and the method under which it stands. -/
theorem key_of_endpoint {e : Endpoint} {o : Operation} {σ σ' : Progress}
    (h : (endpoint d e).run σ = .ok (o, σ')) : (o.path, o.method) = (e.1, e.2.1) := by
  unfold endpoint operation at h
  obtain ⟨operationId, σ₁, -, h⟩ := run_bind_eq_ok.1 h
  obtain ⟨_, σ₂, -, h⟩ := run_bind_eq_ok.1 h
  obtain ⟨_, σ₃, -, h⟩ := run_bind_eq_ok.1 h
  obtain ⟨_, σ₄, -, h⟩ := run_bind_eq_ok.1 h
  dsimp only at h
  split at h
  · rw [run_bind_of_error (run_refuse _ _)] at h
    cases h
  · obtain ⟨b?, σ₅, -, h⟩ := run_bind_eq_ok.1 h
    obtain ⟨b, σ₆, -, h⟩ := run_bind_eq_ok.1 h
    obtain ⟨rfl, -⟩ := run_pure_eq_ok.1 h
    rfl

/-- The operations of a resolved document have different paths or methods. -/
theorem nodup_keys_of_resolve (hpaths : (d.paths.map Prod.fst).Nodup)
    (h : d.resolve namePrefix = .ok (m, ws)) :
    (m.operations.map fun o => (o.path, o.method)).Nodup := by
  have hkeys : m.operations.map (fun o => (o.path, o.method)) =
      (operationsOf d).map fun e => (e.1, e.2.1) := by
    rw [eq_comm, map_eq_map_iff]
    exact (run_endpoints h).imp fun e o ⟨_, _, hr⟩ => (key_of_endpoint hr).symm
  rw [hkeys]
  exact nodup_operationsOf hpaths

end Endpoints

end Resolve

/-! ## One to one -/

namespace Emit

open Naming (identWords)

/-- What contract, controller and client of a document have for its operations. -/
structure OneToOne (m : Metadata) (contract controller client : SourceModule) : Prop where
  /-- The contract has the methods of the operations, in their order and no others. -/
  methods : ∃ cs texts, m.operations.mapM contractMethod = .ok cs ∧
    cs.map (·.ident) = m.operations.map methodIdent ∧
    List.Forall₂ ContractMethodText cs texts ∧ Code.braces texts.flatten <:+ contract.code
  /-- Behind the controller stand the handlers of the operations, in their order and no others. -/
  handlers : ∃ ks head texts, m.operations.mapM (handler m.refs) = .ok ks ∧
    ks.map (fun k => (k.path, k.method, k.ident)) = m.operations.map entryOf ∧
    ControllerText (contractName m) (controllerName m) (routes m.operations) head ∧
    List.Forall₂ (HandlerText (contractName m)) ks texts ∧ head ++ texts.flatten <:+ controller.code
  /-- The client has the methods of the operations, in their order and no others. -/
  clients : ∃ ks text, m.operations.mapM (clientMethod m.refs) = .ok ks ∧
    ks.map (fun k => (k.path, k.method, k.ident)) = m.operations.map entryOf ∧
    ClientText (clientName m) ks text ∧ text <:+ client.code
  /-- The controller makes a router of the routes. -/
  router : ∃ texts, List.Forall₂ RouteText (routes m.operations) texts ∧
    Code.flat "::axum::Router::new()" ++ texts.flatten ++ Code.flat ".with_state(self.server)" <:+:
      controller.code
  /-- Every path has one route, and the routes have one entry for each operation. -/
  routed : Routed m.operations (routes m.operations)
  /-- An operation has one entry in the route of its path: its method with its handler. -/
  entry : ∀ o ∈ m.operations, ∃ r ∈ routes m.operations, r.path = o.path ∧
    r.entries.filter (·.1 == o.method) = [(o.method, methodIdent o)]

section Correspondence

variable {d : Document} {namePrefix : String} {m : Metadata} {ws : List Warning}
  {contract controller client : SourceModule}

/-- Two operations have the same identifier if their `operationId`s have the same words. -/
theorem nodup_methodIdents_iff {os : List Operation} :
    (os.map methodIdent).Nodup ↔
      os.Pairwise fun o o' => identWords o.operationId ≠ identWords o'.operationId := by
  rw [List.Nodup, List.pairwise_map]
  exact List.Pairwise.iff fun o o' => not_congr Naming.fieldIdent_eq_iff

/-- Operations, contract methods, handlers, entries of the router and client methods of a document
correspond one to one, and every path is registered by one call.  The identifiers of different
operations are different if and only if no two `operationId`s have the same words. -/
theorem operations_one_to_one (hpaths : (d.paths.map Prod.fst).Nodup)
    (h : d.resolve namePrefix = .ok (m, ws)) (hcontract : contractModule m = .ok contract)
    (hcontroller : controllerModule m = .ok controller) (hclient : clientModule m = .ok client) :
    OneToOne m contract controller client ∧
      ((m.operations.map methodIdent).Nodup ↔
        m.operations.Pairwise fun o o' =>
          identWords o.operationId ≠ identWords o'.operationId) := by
  obtain ⟨cs, methods, hcs, hmethods, hcode⟩ := methods_of_contractModule hcontract
  obtain ⟨ks, head, handlers, hks, hhead, hhandlers, hkcode⟩ :=
    handlers_of_controllerModule hcontroller
  obtain ⟨ls, text, hls, htext, hlcode⟩ := methods_of_clientModule hclient
  obtain ⟨calls, hcalls, hrouter⟩ := hhead.router
  have hrouted := routed_routes m.operations
  have hkeys := Resolve.nodup_keys_of_resolve hpaths h
  refine ⟨?_, nodup_methodIdents_iff⟩
  exact {
    methods := by
      refine ⟨cs, methods, hcs, ?_, hmethods, hcode⟩
      rw [eq_comm, map_eq_map_iff]
      exact (mapM_eq_ok.1 hcs).imp fun o c hc => (ident_of_contractMethod hc).symm
    handlers := by
      refine ⟨ks, head, handlers, hks, ?_, hhead, hhandlers, hkcode⟩
      rw [eq_comm, map_eq_map_iff]
      exact (mapM_eq_ok.1 hks).imp fun o k hk => (entry_of_handler hk).symm
    clients := by
      refine ⟨ls, text, hls, ?_, htext, hlcode⟩
      rw [eq_comm, map_eq_map_iff]
      exact (mapM_eq_ok.1 hls).imp fun o k hk => (entry_of_clientMethod hk).symm
    router := by
      have hbegins : head <:+: controller.code :=
        (List.prefix_append _ _).isInfix.trans hkcode.isInfix
      exact ⟨calls, hcalls, hrouter.trans hbegins⟩
    routed := hrouted
    entry := fun o ho => hrouted.filter_eq hkeys ho }

end Correspondence

/-! ### Two operations of one path -/

section Pets

open Resolve (emptyResponse)

/-- An operation with an empty response. -/
def petOperation (operationId : String) : Document.Operation where
  operationId := some operationId
  responses := [("204", emptyResponse)]

/-- A document with two operations of one path. -/
def petDocument (first second : String) : Document where
  paths := [("/pets", { get := some (petOperation first), post := some (petOperation second) })]

/-- What an operation with an empty response is resolved to. -/
def resolvedPet (method : Method) (operationId className : String) : Operation where
  path := "/pets"
  method
  operationId
  summary := none
  params := []
  requestBody := none
  responseBody := {
    className
    variants := [(.code 204, { name := "NoContent", headers := none, payload := .none })] }

def petMetadata (operations : List Operation) : Metadata where
  namePrefix := "Api"
  operations
  refs := .empty

theorem operations_one_to_one_pets :
    ∃ m contract controller client,
      (petDocument "listPets" "createPet").resolve "Api" = .ok (m, []) ∧
      OneToOne m contract controller client ∧
      (m.operations.map methodIdent) = ["list_pets", "create_pet"] ∧
      routes m.operations = [⟨"/pets", [(.get, "list_pets"), (.post, "create_pet")]⟩] := by
  have hresolve : (petDocument "listPets" "createPet").resolve "Api" = .ok (petMetadata
      [resolvedPet .get "listPets" "ListPetsResponse",
        resolvedPet .post "createPet" "CreatePetResponse"], []) := rfl
  obtain ⟨hone, -⟩ := operations_one_to_one (by decide) hresolve rfl rfl rfl
  exact ⟨_, _, _, _, hresolve, hone, rfl, rfl⟩

/-- Two `operationId`s may have the same words.  Then contract, controller and client are generated
with two methods or handlers of the same name. -/
theorem methods_share_name :
    ∃ m, (petDocument "listPets" "list_pets").resolve "Api" = .ok (m, []) ∧
      (∃ s, contractModule m = .ok s) ∧ (∃ s, controllerModule m = .ok s) ∧
      (∃ s, clientModule m = .ok s) ∧
      m.operations.map (·.operationId) = ["listPets", "list_pets"] ∧
      m.operations.map methodIdent = ["list_pets", "list_pets"] ∧
      routes m.operations = [⟨"/pets", [(.get, "list_pets"), (.post, "list_pets")]⟩] := by
  refine ⟨petMetadata [resolvedPet .get "listPets" "ListPetsResponse",
    resolvedPet .post "list_pets" "ListPetsResponse"], rfl, ⟨_, rfl⟩, ⟨_, rfl⟩, ⟨_, rfl⟩, rfl, rfl,
    rfl⟩

end Pets

end Emit
end ApiContract
