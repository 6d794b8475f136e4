import ApiContract.Proofs.Emission
import ApiContract.Proofs.HandlerTexts
import ApiContract.Proofs.Responses

/-!
# The arguments that handlers pass on

**Input:** metadata whose handlers can be generated.

A handler reads the parameters and the body of a request one after another, each under a local name,
and then calls the method of the contract with these names.  A parameter that would hide one of the
handler's own names is renamed.

**Results:**

* `nodup_localIdents_iff`: different identifiers have different local names if and only if none of
  them is the new name of another;
* `handler_arguments`: a handler reads what the contract method takes, in the same order and with
  the body last, and keeps the meaning of its own names; every argument of the call stands for what
  it is meant to if and only if no identifier is the new name of another;
* `handler_passes_wrong_argument`: one can be.
-/

namespace ApiContract
namespace Emit

open Code (Meaning Statement introduced scopes owned)

/-! ## Local names -/

section LocalNames

variable {x : String} {idents : List String}

/-- The name of a parameter is never one of the handler's own. -/
theorem localIdent_not_mem_reservedLocals (x : String) : localIdent x ∉ reservedLocals := by
  have hnew : ∀ n ∈ reservedLocals, n ++ "_param" ∉ reservedLocals := by decide
  unfold localIdent
  split
  · rename_i h
    exact hnew x (by simpa using h)
  · rename_i h
    simpa using h

theorem localIdent_of_mem (h : x ∈ reservedLocals) : localIdent x = x ++ "_param" :=
  if_pos (by simpa using h)

theorem localIdent_of_not_mem (h : x ∉ reservedLocals) : localIdent x = x :=
  if_neg (by simpa using h)

/-- None of the identifiers is the new name of another. -/
def RenamedApart (idents : List String) : Prop :=
  ∀ n ∈ reservedLocals, n ∈ idents → n ++ "_param" ∉ idents

instance (idents : List String) : Decidable (RenamedApart idents) :=
  inferInstanceAs (Decidable (∀ n ∈ reservedLocals, n ∈ idents → n ++ "_param" ∉ idents))

/-- Different identifiers have different local names if and only if none of them is the new name of
another. -/
theorem nodup_localIdents_iff (hn : idents.Nodup) :
    (idents.map localIdent).Nodup ↔ RenamedApart idents := by
  constructor
  · intro h n hr hmem hmem'
    have hnew : n ++ "_param" ∉ reservedLocals := by
      rw [← localIdent_of_mem hr]
      exact localIdent_not_mem_reservedLocals n
    have hsame : localIdent n = localIdent (n ++ "_param") := by
      rw [localIdent_of_mem hr, localIdent_of_not_mem hnew]
    have he := List.inj_on_of_nodup_map h hmem hmem' hsame
    exact hnew (he ▸ hr)
  · intro h
    refine hn.map_on fun x hx y hy he => ?_
    -- If one of the two is renamed and the other is not, the other is the new name of the one.
    by_cases hrx : x ∈ reservedLocals <;> by_cases hry : y ∈ reservedLocals
    · rw [localIdent_of_mem hrx, localIdent_of_mem hry] at he
      exact String.append_left_inj _ |>.1 he
    · rw [localIdent_of_mem hrx, localIdent_of_not_mem hry] at he
      exact absurd (he ▸ hy) (h x hrx hx)
    · rw [localIdent_of_not_mem hrx, localIdent_of_mem hry] at he
      exact absurd (he ▸ hx) (h y hry hy)
    · rwa [localIdent_of_not_mem hrx, localIdent_of_not_mem hry] at he

end LocalNames

/-! ## Handlers of operations -/

/-- How a parameter is read: from its own place, with the scalar type that it has. -/
structure ReadsParam (p : Param) (r : ParamRead) : Prop where
  binding : r.binding = localIdent (Naming.fieldIdent p.name)
  wire : r.wire = p.name
  location : r.location = p.location
  required : r.required = p.required
  scalar : p.property.type = .primitive r.scalar

/-- An input is what an argument of the contract method is for, and has its type. -/
def Feeds (c : ContractParam) : Input → Prop
  | .param r => c.wire = some r.wire ∧ c.type = optionalUnless r.required (.scalar r.scalar)
  | .body b => c.wire = none ∧ c.type = optionalUnless b.required (.model b.className)

/-- What the handler of an operation consists of. -/
structure HandlerOf (refs : RefTable) (o : Operation) (cs : List ContractParam) (k : Handler) :
    Prop where
  arguments : k.arguments = cs.map argumentOf
  reads : List.Forall₂ ReadsParam o.params k.reads
  body : Option.Rel (fun b r => bodyDispatch refs b = .ok r) o.requestBody k.body
  response : k.response = o.responseBody.className
  arms : List.Forall₂ (fun e a => dispatchArm o e.1 e.2 = .ok a) o.responseBody.variants k.arms
  /-- A handler that stores files deletes them. -/
  cleansUp : k.body.any (·.storesFiles) → k.cleansUp = true

def paramIdents (o : Operation) : List String :=
  o.params.map fun p => Naming.fieldIdent p.name

section Handlers

variable {refs : RefTable} {o : Operation} {k : Handler} {cs : List ContractParam}

theorem nodup_paramIdents (hcs : contractParams o = .ok cs) : (paramIdents o).Nodup := by
  obtain ⟨ps, -, hps, hn⟩ := contractParams_eq_ok hcs
  have hidents : paramIdents o = ps.map (·.ident) := by
    rw [paramIdents, map_eq_map_iff]
    refine hps.imp fun p c hc => ?_
    obtain ⟨q, -, rfl⟩ := hc
    rfl
  rwa [hidents]

theorem paramRead_eq_ok {p : Param} {r : ParamRead} (h : paramRead o p = .ok r) :
    ReadsParam p r := by
  obtain ⟨q, hq, h⟩ := bind_eq_ok.1 h
  obtain rfl := Except.ok.inj h
  exact ⟨rfl, rfl, rfl, rfl, paramScalar_eq_ok.1 hq⟩

theorem handler_eq_ok (h : handler refs o = .ok k) :
    ∃ cs, contractParams o = .ok cs ∧ HandlerOf refs o cs k := by
  unfold handler at h
  obtain ⟨cs, hcs, h⟩ := bind_eq_ok.1 h
  obtain ⟨reads, hreads, h⟩ := bind_eq_ok.1 h
  have hreads' := (mapM_eq_ok.1 hreads).imp fun _ _ => paramRead_eq_ok
  refine ⟨cs, hcs, ?_⟩
  dsimp only at h
  split at h
  · rename_i hb
    obtain ⟨_, hnone, h⟩ := bind_eq_ok.1 h
    obtain rfl := Except.ok.inj hnone
    obtain ⟨arms, harms, h⟩ := bind_eq_ok.1 h
    obtain rfl := Except.ok.inj h
    refine ⟨rfl, hreads', ?_, rfl, mapM_eq_ok.1 harms, by simp⟩
    rw [hb]
    exact .none
  · rename_i b hb
    obtain ⟨_, hsome, h⟩ := bind_eq_ok.1 h
    obtain ⟨r, hr, rfl⟩ := map_eq_ok.1 hsome
    obtain ⟨arms, harms, h⟩ := bind_eq_ok.1 h
    obtain rfl := Except.ok.inj h
    refine ⟨rfl, hreads', ?_, rfl, mapM_eq_ok.1 harms, fun hs => by simpa using Or.inl hs⟩
    rw [hb]
    exact .some hr

theorem bodyDispatch_eq_ok {b : RequestBody} {r : BodyDispatch} (h : bodyDispatch refs b = .ok r) :
    r.className = b.className ∧ r.required = b.required ∧
      List.Forall₂ (fun e a => bodyArm refs e.1 e.2 = .ok a) b.content r.arms := by
  obtain ⟨arms, harms, h⟩ := bind_eq_ok.1 h
  obtain rfl := Except.ok.inj h
  exact ⟨rfl, rfl, mapM_eq_ok.1 harms⟩

/-- A parameter is read with the type that the contract method takes. -/
theorem feeds_param {p : Param} {c : ContractParam} {r : ParamRead} (hc : Argument p c)
    (hr : ReadsParam p r) : Feeds c (.param r) := by
  obtain ⟨q, hq, rfl⟩ := hc
  obtain rfl : q = r.scalar := by
    rw [hr.scalar] at hq
    exact (Descriptor.primitive.inj hq).symm
  exact ⟨congrArg some hr.wire.symm, by rw [hr.required]; rfl⟩

namespace HandlerOf

/-- What is read is what the contract method takes, the request body last. -/
theorem feeds (h : HandlerOf refs o cs k) (hcs : contractParams o = .ok cs) :
    List.Forall₂ Feeds cs k.inputs := by
  obtain ⟨ps, rfl, hps, -⟩ := contractParams_eq_ok hcs
  refine List.rel_append ?_ ?_
  · rw [List.forall₂_map_right_iff]
    exact forall₂_of_common hps h.reads fun _ _ _ => feeds_param
  · rw [Option.toList_map, List.forall₂_map_left_iff, List.forall₂_map_right_iff]
    refine (forall₂_toList h.body).imp fun b r hb => ?_
    obtain ⟨hclass, hrequired, -⟩ := bodyDispatch_eq_ok hb
    refine ⟨rfl, ?_⟩
    rw [hclass, hrequired]
    rfl

/-- The arguments of the call are the local names of what is read. -/
theorem arguments_eq (h : HandlerOf refs o cs k) (hcs : contractParams o = .ok cs) :
    k.arguments = k.inputs.map Input.name := by
  obtain ⟨ps, rfl, hps, -⟩ := contractParams_eq_ok hcs
  rw [h.arguments, map_eq_map_iff]
  refine List.rel_append ?_ ?_
  · rw [List.forall₂_map_right_iff]
    refine forall₂_of_common hps h.reads fun p c r hc hr => ?_
    obtain ⟨q, -, rfl⟩ := hc
    exact hr.binding.symm
  · rw [Option.toList_map, List.forall₂_map_left_iff, List.forall₂_map_right_iff]
    exact (forall₂_toList h.body).imp fun _ _ _ => rfl

theorem bindings_eq (h : HandlerOf refs o cs k) :
    k.reads.map (·.binding) = (paramIdents o).map localIdent := by
  rw [paramIdents, List.map_map, eq_comm, map_eq_map_iff]
  exact h.reads.imp fun _ _ hr => hr.binding.symm

theorem binding_not_mem_reservedLocals (h : HandlerOf refs o cs k) {r : ParamRead}
    (hr : r ∈ k.reads) : r.binding ∉ reservedLocals := by
  obtain ⟨p, -, hp⟩ := exists_of_mem_right h.reads hr
  rw [hp.binding]
  exact localIdent_not_mem_reservedLocals _

theorem nodup_bindings_iff (h : HandlerOf refs o cs k) (hcs : contractParams o = .ok cs) :
    (k.reads.map (·.binding)).Nodup ↔ RenamedApart (paramIdents o) := by
  rw [h.bindings_eq]
  exact nodup_localIdents_iff (nodup_paramIdents hcs)

/-- The body has a local name that no parameter has. -/
theorem nodup_names_iff (h : HandlerOf refs o cs k) :
    (k.inputs.map Input.name).Nodup ↔ (k.reads.map (·.binding)).Nodup := by
  have hreads : (k.reads.map Input.param).map Input.name = k.reads.map (·.binding) := by
    rw [List.map_map]
    rfl
  cases hb : k.body with
  | none => simp [Handler.inputs, hb, hreads]
  | some b =>
      have hfree : requestIdent ∉ k.reads.map (·.binding) := by
        intro hm
        obtain ⟨r, hr, he⟩ := List.mem_map.1 hm
        refine h.binding_not_mem_reservedLocals hr ?_
        rw [he]
        decide
      have hinputs : k.inputs.map Input.name = k.reads.map (·.binding) ++ [requestIdent] := by
        simp only [Handler.inputs, hb, List.map_append, hreads]
        rfl
      rw [hinputs, ← List.concat_eq_append, List.nodup_concat]
      exact ⟨fun hn => hn.2, fun hn => ⟨hfree, hn⟩⟩

theorem nodup_inputs (h : HandlerOf refs o cs k) (hcs : contractParams o = .ok cs) :
    k.inputs.Nodup := by
  have hwires : (k.reads.map (·.wire)).map Naming.fieldIdent = paramIdents o := by
    rw [paramIdents, List.map_map, eq_comm, map_eq_map_iff]
    exact h.reads.imp fun _ _ hr => congrArg Naming.fieldIdent hr.wire.symm
  have hreads : k.reads.Nodup := by
    have hn := nodup_paramIdents hcs
    rw [← hwires] at hn
    exact (hn.of_map _).of_map _
  unfold Handler.inputs
  rw [List.nodup_append]
  refine ⟨hreads.map fun _ _ => Input.param.inj, ?_, ?_⟩
  · cases k.body <;> simp
  · intro i hi j hj
    obtain ⟨r, -, rfl⟩ := List.mem_map.1 hi
    obtain ⟨b, -, rfl⟩ := List.mem_map.1 hj
    exact Input.noConfusion

end HandlerOf

end Handlers

/-! ## The names that a handler uses -/

section Names

variable {refs : RefTable} {o : Operation} {k : Handler} {cs : List ContractParam} {n : String}
  {known : Assoc String (Meaning Input)} {s : Statement String Input}

namespace Handler

def partNames (h : Handler) : List String :=
  ["server"] ++ (if h.reads.any (·.location == .path) then ["path_params"] else []) ++
    (if h.reads.any (·.location == .query) then ["query_params"] else []) ++
    (if h.reads.any (·.location == .header) || h.body.isSome then ["header_map"] else []) ++
    (if h.body.isSome then ["request"] else [])

theorem introduced_parts (h : Handler) : introduced h.parts = owned h.partNames := by
  simp only [introduced, owned, parts, partNames, List.filterMap_append, List.map_append,
    apply_ite (List.filterMap _), apply_ite (List.map _)]
  rfl

theorem reserved_of_mem_partNames (hn : n ∈ k.partNames) :
    n ∈ reservedLocals ∧ n ≠ requestIdent := by
  simp only [partNames, List.mem_append, List.mem_ite_nil_right, List.mem_singleton] at hn
  rcases hn with (((rfl | ⟨-, rfl⟩) | ⟨-, rfl⟩) | ⟨-, rfl⟩) | ⟨-, rfl⟩ <;>
    exact ⟨by decide, by decide⟩

theorem sourceName_mem_partNames {r : ParamRead} (hr : r ∈ k.reads) :
    sourceName r.location ∈ k.partNames := by
  have hany : ∃ q ∈ k.reads, q.location = r.location := ⟨r, hr, rfl⟩
  cases hl : r.location <;> rw [hl] at hany <;> simp [partNames, sourceName, hany]

/-- A handler has taken or set up what it uses. -/
theorem mem_of_mem_uses (hc : k.body.any (·.storesFiles) → k.cleansUp = true)
    (hs : s ∈ k.statements) (hn : n ∈ s.uses) :
    n ∈ k.partNames ∨ n = "cleanup" ∧ k.cleansUp = true := by
  unfold statements preparation at hs
  rcases List.mem_append.1 hs with hs | hs
  · rcases List.mem_cons.1 hs with rfl | hs
    · cases hn
    · obtain ⟨i, hi, rfl⟩ := List.mem_map.1 hs
      rcases List.mem_append.1 hi with hi | hi
      · obtain ⟨r, hr, rfl⟩ := List.mem_map.1 hi
        obtain rfl := List.mem_singleton.1 hn
        exact Or.inl (sourceName_mem_partNames hr)
      · obtain ⟨b, hb, rfl⟩ := List.mem_map.1 hi
        have hb' : k.body = some b := by simpa using hb
        rcases List.mem_append.1 hn with hn | hn
        · refine Or.inl ?_
          simp only [List.mem_cons, List.not_mem_nil, or_false] at hn
          rcases hn with rfl | rfl <;> simp [partNames, hb']
        · simp only [List.mem_ite_nil_right, List.mem_singleton] at hn
          exact Or.inr ⟨hn.2, hc (by simpa [hb'] using hn.1)⟩
  · obtain rfl := List.mem_singleton.1 hs
    obtain rfl := List.mem_singleton.1 hn
    exact Or.inl (by simp [partNames])

/-- What is introduced before the call: the handler's own names, and its inputs under theirs. -/
theorem introduced_preparation (h : Handler) :
    introduced h.preparation =
      (if h.cleansUp then "cleanup" else "_cleanup", .own) :: h.inputs.map fun i =>
        (i.name, .value i) := by
  have hinputs : introduced (h.inputs.map Input.statement) = h.inputs.map fun i =>
      (i.name, .value i) := by
    rw [introduced, List.filterMap_map, ← List.filterMap_eq_map]
    rfl
  rw [← hinputs]
  rfl

/-- Values are introduced under the names of the inputs only. -/
theorem exists_input_of_value {i : Input} (h : (n, .value i) ∈ introduced k.statements) :
    i ∈ k.inputs ∧ i.name = n := by
  rw [statements, introduced, List.filterMap_append, List.mem_append] at h
  rcases h with h | h
  · change _ ∈ introduced k.preparation at h
    rw [introduced_preparation, List.mem_cons] at h
    rcases h with h | h
    · cases h
    · obtain ⟨j, hj, he⟩ := List.mem_map.1 h
      obtain ⟨rfl, hv⟩ := Prod.mk.inj he
      obtain rfl := Meaning.value.inj hv
      exact ⟨hj, rfl⟩
  · cases List.mem_singleton.1 h

end Handler

/-- A value has the local name of what is read, which is none of the names that a handler uses. -/
theorem HandlerOf.name_not_used (h : HandlerOf refs o cs k) {i : Input} (hi : i ∈ k.inputs) :
    i.name = requestIdent ∨ i.name ∉ reservedLocals := by
  rcases List.mem_append.1 hi with hi | hi
  · obtain ⟨r, hr, rfl⟩ := List.mem_map.1 hi
    exact Or.inr (h.binding_not_mem_reservedLocals hr)
  · obtain ⟨b, -, rfl⟩ := List.mem_map.1 hi
    exact Or.inl rfl

/-- No value has a name that a handler uses. -/
theorem HandlerOf.value_not_mem (h : HandlerOf refs o cs k) (hn : n ∈ reservedLocals)
    (hne : n ≠ requestIdent) (i : Input) :
    (n, .value i) ∉ introduced k.parts ++ introduced k.statements := by
  intro hi
  rw [Handler.introduced_parts, List.mem_append] at hi
  rcases hi with hi | hi
  · obtain ⟨m, -, hm⟩ := List.mem_map.1 hi
    cases hm
  · -- A value has the name of an input, which is the body's or not reserved.
    obtain ⟨hinput, rfl⟩ := Handler.exists_input_of_value hi
    rcases h.name_not_used hinput with hr | hr
    · exact hne hr
    · exact hr hn

/-- A handler keeps the meaning of the names that it uses. -/
theorem HandlerOf.latest?_own (h : HandlerOf refs o cs k)
    (hs : (s, known) ∈ scopes (introduced k.parts) k.statements) (hn : n ∈ s.uses) :
    known.latest? n = some .own := by
  obtain ⟨before, after, he, rfl⟩ := Code.mem_scopes_iff.1 hs
  have hmem : s ∈ k.statements := by simp [he]
  have hown := Handler.mem_of_mem_uses h.cleansUp hmem hn
  have hreserved : n ∈ reservedLocals ∧ n ≠ requestIdent := by
    rcases hown with hown | ⟨rfl, -⟩
    · exact Handler.reserved_of_mem_partNames hown
    · exact ⟨by decide, by decide⟩
  refine Code.latest?_eq_own ?_ fun i hi => ?_
  · rw [Handler.introduced_parts, List.mem_append]
    rcases hown with hown | ⟨rfl, hclean⟩
    · exact Or.inl (List.mem_map.2 ⟨n, hown, rfl⟩)
    · -- The first statement sets the deletion up, and uses nothing.
      refine Or.inr ?_
      cases before with
      | nil =>
          obtain ⟨rfl, -⟩ := List.cons.inj he
          cases hn
      | cons t before =>
          obtain ⟨rfl, -⟩ := List.cons.inj he
          refine List.mem_filterMap.2 ⟨k.setup, List.mem_cons_self, ?_⟩
          simp [Handler.setup, hclean]
  · refine h.value_not_mem hreserved.1 hreserved.2 i ?_
    rw [he, introduced, introduced, List.filterMap_append, ← List.append_assoc]
    exact List.mem_append_left _ hi

/-- Every argument of the call stands for what it is meant to if and only if the local names of what
is read are different. -/
theorem HandlerOf.denotes_iff (h : HandlerOf refs o cs k) (hcs : contractParams o = .ok cs) :
    k.arguments.map (introduced k.parts ++ introduced k.preparation).latest? =
        k.inputs.map (fun i => some (.value i)) ↔
      RenamedApart (paramIdents o) := by
  have hpairs : (k.inputs.map fun i => (i.name, Meaning.value i)).Nodup :=
    (h.nodup_inputs hcs).map fun i j he => Meaning.value.inj (Prod.mk.inj he).2
  have hknown : introduced k.parts ++ introduced k.preparation =
      (introduced k.parts ++ [(if k.cleansUp then "cleanup" else "_cleanup", .own)]) ++
        k.inputs.map fun i => (i.name, Meaning.value i) := by
    rw [Handler.introduced_preparation, List.append_assoc, List.singleton_append]
  have hnames : (k.inputs.map fun i => (i.name, Meaning.value i)).map Prod.fst =
      k.inputs.map Input.name := by
    rw [List.map_map]
    rfl
  rw [h.arguments_eq hcs, List.map_map, List.map_inj_left, hknown, ← h.nodup_bindings_iff hcs,
    ← h.nodup_names_iff, ← hnames, ← Assoc.forall_latest?_iff_nodup hpairs, List.forall_mem_map]
  rfl

end Names

/-! ## Controllers -/

/-- A handler passes on what it has read. -/
structure PassesArguments (o : Operation) (cs : List ContractParam) (k : Handler) : Prop where
  /-- Every parameter is read from its own place, in the order of declaration. -/
  reads : List.Forall₂ ReadsParam o.params k.reads
  /-- What is read is what the contract method takes, in the same order and the body last. -/
  feeds : List.Forall₂ Feeds cs k.inputs
  /-- No parameter is read under one of the handler's own names. -/
  unreserved : ∀ r ∈ k.reads, r.binding ∉ reservedLocals
  /-- Every statement finds the handler's own names with their own meaning. -/
  own : ∀ s known, (s, known) ∈ scopes (introduced k.parts) k.statements →
    ∀ n ∈ s.uses, known.latest? n = some .own
  /-- The parameters are read under different names if and only if no identifier is the new name of
  another. -/
  distinct : (k.reads.map (·.binding)).Nodup ↔ RenamedApart (paramIdents o)
  /-- In the call every argument stands for what was read for it if and only if this is so. -/
  denotes : ∃ known, (k.call, known) ∈ scopes (introduced k.parts) k.statements ∧
    (k.arguments.map known.latest? = k.inputs.map (fun i => some (.value i)) ↔
      RenamedApart (paramIdents o))

section Controllers

variable {m : Metadata} {s : SourceModule} {o : Operation}

theorem contractMethod_eq_ok {cs : List ContractParam} (hcs : contractParams o = .ok cs) :
    ∃ c, contractMethod o = .ok c ∧ c.params = cs := by
  unfold contractMethod
  rw [hcs]
  exact ⟨_, rfl, rfl⟩

theorem exists_handler (h : controllerModule m = .ok s) (ho : o ∈ m.operations) :
    ∃ k, handler m.refs o = .ok k ∧ k.code (contractName m) <:+: s.code := by
  obtain ⟨_, -, h⟩ := bind_eq_ok.1 h
  obtain ⟨ks, hks, h⟩ := bind_eq_ok.1 h
  obtain rfl := Except.ok.inj h
  obtain ⟨k, hk, hok⟩ := exists_of_mem_right (mapM_eq_ok.1 hks).flip ho
  exact ⟨k, hok, (infix_flatMap hk).trans (List.suffix_append _ _).isInfix⟩

theorem exists_controllerModule_of_handlers {ks : List Handler} (hcheck : checkNames m = .ok ())
    (hks : m.operations.mapM (handler m.refs) = .ok ks) : ∃ s, controllerModule m = .ok s := by
  unfold controllerModule
  rw [hcheck, hks]
  exact ⟨_, rfl⟩

end Controllers

/-! ### A document with several responses -/

section Hosts

open Resolve (hostMetadata hostOperation)

/-- The handler of the operation of the document with several responses. -/
def hostHandler : Handler where
  method := .get
  path := "/hosts"
  ident := "list_hosts"
  reads := [
    ⟨"server_param", "server", .query, true, .int⟩,
    ⟨"server_param", "server_param", .query, true, .int⟩,
    ⟨"url", "url", .query, true, .int⟩]
  body := none
  arguments := ["server_param", "server_param", "url"]
  response := "ListHostsResponse"
  arms := [
    { tag := "File"
      bindings := ["file", "list_hosts_response_file_headers"]
      status := .fixed 200
      headersBinding := "list_hosts_response_file_headers"
      headers := [⟨"X-Total", "x_total", true⟩]
      body := .file "file" },
    { tag := "NotFound"
      bindings := []
      status := .fixed 404
      headersBinding := ""
      headers := []
      body := .empty },
    { tag := "Fault"
      bindings := ["fault"]
      status := .body "fault"
      headersBinding := ""
      headers := []
      body := .json "fault" }]
  cleansUp := true

theorem handler_hosts : handler hostMetadata.refs hostOperation = .ok hostHandler := rfl

theorem checkNames_hosts : checkNames hostMetadata = .ok () := rfl

theorem exists_controllerModule_hosts : ∃ s, controllerModule hostMetadata = .ok s := by
  have hhandlers : hostMetadata.operations.mapM (handler hostMetadata.refs) = .ok [hostHandler] :=
    mapM_eq_ok.2 (.cons handler_hosts .nil)
  exact exists_controllerModule_of_handlers checkNames_hosts hhandlers

end Hosts

/-! ### What controllers pass on -/

section Controllers

open Resolve (hostDocument hostMetadata hostOperation resolve_hostDocument)

variable {m : Metadata} {s : SourceModule} {o : Operation}

/-- The handler of every operation reads what the contract method takes, in the same order and with
the body last, and no parameter hides a name of the handler.  Every argument of the call stands for
what was read for it if and only if no identifier is the new name of another. -/
theorem handler_arguments (h : controllerModule m = .ok s) (ho : o ∈ m.operations) :
    ∃ c k, contractMethod o = .ok c ∧
      (∀ r, contractModule m = .ok r → ∃ text, ContractMethodText c text ∧ text <:+: r.code) ∧
      handler m.refs o = .ok k ∧ k.code (contractName m) <:+: s.code ∧
      HandlerText (contractName m) k (k.code (contractName m)) ∧ PassesArguments o c.params k := by
  obtain ⟨k, hk, hcode⟩ := exists_handler h ho
  obtain ⟨cs, hcs, hof⟩ := handler_eq_ok hk
  obtain ⟨c, hc, rfl⟩ := contractMethod_eq_ok hcs
  refine ⟨c, k, hc, fun r hr => ?_, hk, hcode, k.text (contractName m), ?_⟩
  · obtain ⟨c', hc', hpart⟩ := exists_contractMethod hr ho
    obtain rfl := Except.ok.inj (hc.symm.trans hc')
    exact ⟨c.code, c.text, hpart⟩
  · exact {
      reads := hof.reads
      feeds := hof.feeds hcs
      unreserved := fun _ hr => hof.binding_not_mem_reservedLocals hr
      own := fun _ _ hs _ hn => hof.latest?_own hs hn
      distinct := hof.nodup_bindings_iff hcs
      denotes := ⟨_, Code.mem_scopes_iff.2 ⟨k.preparation, [], rfl, rfl⟩, hof.denotes_iff hcs⟩ }

theorem handler_arguments_hosts :
    hostDocument.resolve "Api" = .ok (hostMetadata, []) ∧
      ∃ s, controllerModule hostMetadata = .ok s ∧ hostOperation ∈ hostMetadata.operations ∧
        ∃ c k, contractMethod hostOperation = .ok c ∧
          (∀ r, contractModule hostMetadata = .ok r →
            ∃ text, ContractMethodText c text ∧ text <:+: r.code) ∧
          handler hostMetadata.refs hostOperation = .ok k ∧
          k.code (contractName hostMetadata) <:+: s.code ∧
          HandlerText (contractName hostMetadata) k (k.code (contractName hostMetadata)) ∧
          PassesArguments hostOperation c.params k := by
  obtain ⟨s, hs⟩ := exists_controllerModule_hosts
  have ho : hostOperation ∈ hostMetadata.operations := List.mem_cons_self
  exact ⟨resolve_hostDocument, s, hs, ho, handler_arguments hs ho⟩

/-- A parameter that is renamed may get the identifier of another one.  Both are then read under one
local name, and the second value is passed on twice. -/
theorem handler_passes_wrong_argument :
    hostDocument.resolve "Api" = .ok (hostMetadata, []) ∧
      (∃ s, controllerModule hostMetadata = .ok s) ∧
      handler hostMetadata.refs hostOperation = .ok hostHandler ∧
      ¬ (hostHandler.reads.map (·.binding)).Nodup ∧
      ∃ known, (hostHandler.call, known) ∈
          scopes (introduced hostHandler.parts) hostHandler.statements ∧
        hostHandler.arguments.map known.latest? =
          [some (.value (.param ⟨"server_param", "server_param", .query, true, .int⟩)),
            some (.value (.param ⟨"server_param", "server_param", .query, true, .int⟩)),
            some (.value (.param ⟨"url", "url", .query, true, .int⟩))] := by
  refine ⟨resolve_hostDocument, exists_controllerModule_hosts, handler_hosts, by decide, _,
    Code.mem_scopes_iff.2 ⟨hostHandler.preparation, [], rfl, rfl⟩, rfl⟩

end Controllers

end Emit
end ApiContract
