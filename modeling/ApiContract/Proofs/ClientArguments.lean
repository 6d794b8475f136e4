import ApiContract.Proofs.ClientTexts
import ApiContract.Proofs.Fields
import ApiContract.Proofs.HandlerArguments

/-!
# The arguments that clients send

**Input:** metadata whose client can be generated.

A client method takes the parameters under their identifiers and puts them into the path, the query
and the headers of a request.  Between these steps it introduces names of its own, which hide
arguments with the same identifiers.

**Results:**

* `client_arguments`: a method mentions every parameter once, for its own place, and finds its own
  names with their own meaning; where a parameter is sent, its identifier stands for its argument
  unless it is captured (`Captured`).
-/

namespace ApiContract
namespace Emit

open Code (Meaning Statement introduced scopes owned braces)

/-! ## Hidden names -/

/-- The names that a method has introduced where it sends the parameters of one location. -/
def hiddenNames (hasQuery : Bool) : Location → List String
  | .path => []
  | .query => ["url", "query"]
  | .header => "url" :: (queryNames hasQuery ++ ["request"])

section Scopes

variable {k : ClientMethod} {s : Statement SentParam ContractParam}
  {known : Assoc String (Meaning ContractParam)} {q : SentParam}

theorem location_of_mem_sentIn {l : Location} (h : q ∈ k.sentIn l) : q.location = l := by
  simpa using (List.mem_filter.1 h).2

/-- The statements that send parameters introduce nothing. -/
theorem eq_of_mem_sending {collector : String} {qs : List SentParam}
    {before : Assoc String (Meaning ContractParam)}
    (h : (s, known) ∈ scopes before (qs.map (·.statement collector))) :
    known = before ∧ ∃ q ∈ qs, s = q.statement collector := by
  have hnone : ∀ t ∈ qs.map (·.statement collector), t.introduces = none := by
    intro t ht
    obtain ⟨q, -, rfl⟩ := List.mem_map.1 ht
    rfl
  obtain ⟨hs, he⟩ := Code.known_eq_of_mem_scopes hnone h
  obtain ⟨q, hq, rfl⟩ := List.mem_map.1 hs
  exact ⟨he, q, hq, rfl⟩

theorem introduced_querying (k : ClientMethod) :
    introduced k.querying = owned (queryNames k.hasQuery) := by
  have hsends : introduced ((k.sentIn .query).map (·.statement "query")) = [] := by
    rw [introduced, List.filterMap_map]
    exact List.filterMap_eq_nil_iff.2 fun _ _ => rfl
  have hcons : ∀ ss : List (Statement SentParam ContractParam),
      introduced (ClientMethod.querySetup :: ss) = ("query", .own) :: introduced ss :=
    fun _ => rfl
  unfold ClientMethod.querying queryNames
  split
  · rw [hcons, hsends]
    rfl
  · rfl

/-- What a statement finds: names that the method has introduced before, among them those that the
statement uses, which are the hidden ones where the statement sends a parameter. -/
structure Finds (k : ClientMethod) (s : Statement SentParam ContractParam) (own : List String) :
    Prop where
  uses : ∀ n ∈ s.uses, n ∈ own
  mentions : ∀ q ∈ s.mentions, own = hiddenNames k.hasQuery q.location

theorem finds_addressing (k : ClientMethod) : Finds k k.addressing [] where
  uses := fun n hn => by cases hn
  mentions := fun q hq => by
    rw [location_of_mem_sentIn hq]
    rfl

theorem finds_requesting (k : ClientMethod) :
    Finds k k.requesting ("url" :: queryNames k.hasQuery) where
  uses := fun n hn => hn
  mentions := fun q hq => by cases hq

theorem finds_statement {collector : String} {l : Location} (hq : q ∈ k.sentIn l)
    (hc : collector ∈ hiddenNames k.hasQuery l) :
    Finds k (q.statement collector) (hiddenNames k.hasQuery l) where
  uses := fun n hn => by rwa [List.mem_singleton.1 hn]
  mentions := fun q' hq' => by rw [List.mem_singleton.1 hq', location_of_mem_sentIn hq]

/-- A statement knows the arguments, and after them the names that it finds. -/
theorem exists_finds (h : (s, known) ∈ scopes k.entry k.statements) :
    ∃ own, known = k.entry ++ owned own ∧ Finds k s own := by
  unfold ClientMethod.statements at h
  rw [scopes, List.mem_cons, Code.scopes_append, List.mem_append] at h
  rcases h with h | h | h
  · obtain ⟨rfl, rfl⟩ := Prod.mk.inj h
    exact ⟨[], (List.append_nil _).symm, finds_addressing k⟩
  · -- The query is collected after the address has been made.
    unfold ClientMethod.querying at h
    split at h
    · rw [scopes, List.mem_cons] at h
      rcases h with h | h
      · obtain ⟨rfl, rfl⟩ := Prod.mk.inj h
        exact ⟨["url"], rfl, fun n hn => (by cases hn), fun q hq => (by cases hq)⟩
      · obtain ⟨rfl, q, hq, rfl⟩ := eq_of_mem_sending h
        exact ⟨["url", "query"], List.append_assoc _ _ _,
          finds_statement hq (by simp [hiddenNames])⟩
    · cases h
  · -- Whether there is a query or not, its name is the only one that comes before the request.
    rw [scopes, List.mem_cons, introduced_querying] at h
    rcases h with h | h
    · obtain ⟨rfl, rfl⟩ := Prod.mk.inj h
      exact ⟨"url" :: queryNames k.hasQuery, List.append_assoc _ _ _, finds_requesting k⟩
    · obtain ⟨rfl, q, hq, rfl⟩ := eq_of_mem_sending h
      refine ⟨"url" :: (queryNames k.hasQuery ++ ["request"]), ?_,
        finds_statement hq (by simp [hiddenNames])⟩
      rw [← List.cons_append, Code.owned_append, ← List.append_assoc]
      exact congrArg (· ++ _) (List.append_assoc _ _ _)

/-- A method finds its own names with their own meaning. -/
theorem latest?_own_of_mem_scopes (h : (s, known) ∈ scopes k.entry k.statements) {n : String}
    (hn : n ∈ s.uses) : known.latest? n = some .own := by
  obtain ⟨own, rfl, hfinds⟩ := exists_finds h
  exact Code.latest?_owned (hfinds.uses n hn)

theorem perm_of_locations (qs : List SentParam) :
    (qs.filter (·.location == .path) ++
      (qs.filter (·.location == .query) ++ qs.filter (·.location == .header))).Perm qs := by
  induction qs with
  | nil => exact .nil
  | cons q qs ih =>
      cases hl : q.location with
      | path => simpa [hl] using ih
      | query =>
          simp only [List.filter_cons, hl]
          exact List.perm_middle.trans (ih.cons q)
      | header =>
          simp only [List.filter_cons, hl]
          rw [← List.append_assoc]
          refine List.perm_middle.trans (.cons q ?_)
          rw [List.append_assoc]
          exact ih

theorem mentions_perm (k : ClientMethod) : (k.statements.flatMap (·.mentions)).Perm k.sent := by
  have hsends : ∀ (collector : String) (qs : List SentParam),
      (qs.map (·.statement collector)).flatMap (·.mentions) = qs := by
    intro collector qs
    rw [List.flatMap_map]
    exact List.flatMap_pure_eq_map id qs |>.trans (List.map_id qs)
  have hquery : k.querying.flatMap (·.mentions) = k.sentIn .query := by
    unfold ClientMethod.querying ClientMethod.hasQuery
    cases he : k.sentIn .query with
    | nil => rfl
    | cons q qs =>
        simp only [List.isEmpty_cons, Bool.not_false, if_true, List.flatMap_cons]
        exact hsends "query" (q :: qs)
  have hall : k.statements.flatMap (·.mentions) =
      k.sentIn .path ++ (k.sentIn .query ++ k.sentIn .header) := by
    unfold ClientMethod.statements
    rw [List.flatMap_cons, List.flatMap_append, List.flatMap_cons, hsends, hquery]
    rfl
  rw [hall]
  exact perm_of_locations k.sent

end Scopes

/-! ## Client methods of operations -/

/-- How a parameter is sent: under its wire name, to its own place. -/
def sentParam (p : Param) : SentParam :=
  ⟨Naming.fieldIdent p.name, p.name, p.location, p.required⟩

/-- The identifier of a parameter has another meaning where the parameter is sent: that of a name
which the method has introduced before, or that of the request body, which comes last among the
arguments. -/
def Captured (o : Operation) (q : SentParam) : Prop :=
  q.ident ∈ hiddenNames (!(o.paramsIn .query).isEmpty) q.location ∨
    q.ident = requestIdent ∧ o.requestBody.isSome = true

instance (o : Operation) (q : SentParam) : Decidable (Captured o q) :=
  inferInstanceAs (Decidable (_ ∨ _))

/-- What the client method of an operation consists of. -/
structure ClientMethodOf (refs : RefTable) (o : Operation) (cs : List ContractParam)
    (k : ClientMethod) : Prop where
  params : k.params = cs
  sent : k.sent = o.params.map sentParam
  body : Option.Rel (fun b r => bodyEncode refs b = .ok r) o.requestBody k.body
  response : k.response = o.responseBody.className
  arms : List.Forall₂ (fun e a => decodeArm refs e.1 e.2 = .ok a) o.responseBody.variants k.arms

section Methods

variable {refs : RefTable} {o : Operation} {k : ClientMethod} {cs : List ContractParam}
  {q : SentParam}

theorem clientMethod_eq_ok (h : clientMethod refs o = .ok k) :
    ∃ cs, contractParams o = .ok cs ∧ ClientMethodOf refs o cs k := by
  unfold clientMethod at h
  obtain ⟨cs, hcs, h⟩ := bind_eq_ok.1 h
  refine ⟨cs, hcs, ?_⟩
  dsimp only at h
  split at h
  · rename_i hb
    obtain ⟨_, hnone, h⟩ := bind_eq_ok.1 h
    obtain rfl := Except.ok.inj hnone
    obtain ⟨arms, harms, h⟩ := bind_eq_ok.1 h
    obtain rfl := Except.ok.inj h
    refine ⟨rfl, rfl, ?_, rfl, mapM_eq_ok.1 harms⟩
    rw [hb]
    exact .none
  · rename_i b hb
    obtain ⟨_, hsome, h⟩ := bind_eq_ok.1 h
    obtain ⟨r, hr, rfl⟩ := map_eq_ok.1 hsome
    obtain ⟨arms, harms, h⟩ := bind_eq_ok.1 h
    obtain rfl := Except.ok.inj h
    refine ⟨rfl, rfl, ?_, rfl, mapM_eq_ok.1 harms⟩
    rw [hb]
    exact .some hr

theorem bodyEncode_eq_ok {b : RequestBody} {r : BodyEncode} (h : bodyEncode refs b = .ok r) :
    r.className = b.className ∧ r.required = b.required ∧
      List.Forall₂ (fun e a => encodeArm refs e.1 e.2 = .ok a) b.content r.arms := by
  obtain ⟨arms, harms, h⟩ := bind_eq_ok.1 h
  obtain rfl := Except.ok.inj h
  exact ⟨rfl, rfl, mapM_eq_ok.1 harms⟩

theorem isEmpty_sentIn (h : ClientMethodOf refs o cs k) (l : Location) :
    (k.sentIn l).isEmpty = (o.paramsIn l).isEmpty := by
  have hmap : k.sentIn l = (o.paramsIn l).map sentParam := by
    rw [ClientMethod.sentIn, h.sent, List.filter_map]
    rfl
  rw [hmap, List.isEmpty_map]

/-- A parameter that is sent has an argument, for which its identifier stands among the arguments
unless it is that of a request body. -/
theorem exists_argument (h : ClientMethodOf refs o cs k) (hcs : contractParams o = .ok cs)
    (hq : q ∈ k.sent) :
    ∃ p ∈ o.params, ∃ c ∈ k.params, q = sentParam p ∧ Argument p c ∧
      (k.entry.latest? q.ident = some (.value c) ↔
        ¬ (q.ident = requestIdent ∧ o.requestBody.isSome = true)) := by
  obtain ⟨ps, rfl, hps, hn⟩ := contractParams_eq_ok hcs
  rw [h.sent] at hq
  obtain ⟨p, hp, rfl⟩ := List.mem_map.1 hq
  obtain ⟨c, hc, r, hr, rfl⟩ := exists_of_mem_right hps.flip hp
  have hunique : Assoc.latest? (ps.map fun a => (a.ident, Meaning.value a)) (sentParam p).ident =
      some (.value (paramArgument p r)) := by
    refine Assoc.latest?_eq_some_of_unique (List.mem_map.2 ⟨_, hc, rfl⟩) fun w hw => ?_
    obtain ⟨a, ha, he⟩ := List.mem_map.1 hw
    obtain ⟨hident, rfl⟩ := Prod.mk.inj he
    rw [List.inj_on_of_nodup_map hn ha hc hident]
  refine ⟨p, hp, paramArgument p r, ?_, rfl, ⟨r, hr, rfl⟩, ?_⟩
  · rw [h.params]
    exact List.mem_append_left _ hc
  · unfold ClientMethod.entry
    rw [h.params, List.map_append]
    cases hb : o.requestBody with
    | none => simpa using hunique
    | some b =>
        by_cases hident : (sentParam p).ident = requestIdent
        · -- The request body is the last argument.
          rw [Assoc.latest?_append, hident]
          simp [Assoc.latest?, bodyArgument, paramArgument]
        · rw [Assoc.latest?_append_of_not_mem, hunique]
          · simp [hident]
          · simpa [bodyArgument] using hident

/-- Where a parameter is sent, its identifier stands for its argument unless it is captured. -/
theorem latest?_ident_iff (h : ClientMethodOf refs o cs k) (hcs : contractParams o = .ok cs)
    (hq : q ∈ k.sent) :
    ∃ p ∈ o.params, ∃ c ∈ k.params, q = sentParam p ∧ Argument p c ∧
      (Assoc.latest? (k.entry ++
          owned (hiddenNames k.hasQuery q.location)) q.ident =
        some (.value c) ↔ ¬ Captured o q) := by
  obtain ⟨p, hp, c, hc, hsent, hargument, hentry⟩ := exists_argument h hcs hq
  refine ⟨p, hp, c, hc, hsent, hargument, ?_⟩
  have hq : k.hasQuery = !(o.paramsIn .query).isEmpty := by
    rw [ClientMethod.hasQuery, isEmpty_sentIn h]
  rw [hq]
  unfold Captured
  by_cases hhidden : q.ident ∈ hiddenNames (!(o.paramsIn .query).isEmpty) q.location
  · rw [Code.latest?_owned hhidden]
    simp [hhidden]
  · rw [Code.latest?_of_not_mem_owned hhidden, hentry]
    simp [hhidden]

end Methods

/-! ## Clients -/

/-- A client method sends the parameters of its operation, as far as their identifiers let it. -/
structure SendsArguments (o : Operation) (k : ClientMethod) : Prop where
  /-- Every parameter is sent under its wire name to its own place. -/
  sent : k.sent = o.params.map sentParam
  /-- Every parameter is mentioned once. -/
  mentions : (k.statements.flatMap (·.mentions)).Perm k.sent
  /-- Every statement finds the method's own names with their own meaning. -/
  own : ∀ s known, (s, known) ∈ scopes k.entry k.statements →
    ∀ n ∈ s.uses, known.latest? n = some .own
  /-- Where a parameter is mentioned, its identifier stands for its argument unless it is
  captured. -/
  arguments : ∀ s known, (s, known) ∈ scopes k.entry k.statements → ∀ q ∈ s.mentions,
    ∃ p ∈ o.params, ∃ c ∈ k.params, q = sentParam p ∧ Argument p c ∧
      (known.latest? q.ident = some (.value c) ↔ ¬ Captured o q)

/-! ## Made clients -/

section Made

variable {m : Metadata} {refs : RefTable} {o : Operation} {cs : List ContractParam}
  {arms : List DecodeArm}

/-- A response without headers can be read if its body has a type. -/
theorem exists_decodeArm_of_body {s : Status} {v : Variant} {t : Descriptor} {type : CodeType}
    (hheaders : v.headers = none) (hpayload : v.payload = .body t false)
    (ht : typeOf refs t = .ok type) : ∃ a, decodeArm refs s v = .ok a := by
  unfold decodeArm
  rw [hheaders, hpayload]
  dsimp only
  rw [ht]
  exact ⟨_, rfl⟩

/-- The parts of a client method of an operation without a body. -/
theorem exists_clientMethod_of_none (hbody : o.requestBody = none)
    (hcs : contractParams o = .ok cs)
    (harms : o.responseBody.variants.mapM (fun e => decodeArm refs e.1 e.2) = .ok arms) :
    ∃ k, clientMethod refs o = .ok k ∧ k.body = none := by
  unfold clientMethod
  rw [hcs, hbody, harms]
  exact ⟨_, rfl, rfl⟩

/-- The parts of a client method of an operation with a body. -/
theorem exists_clientMethod_of_some {b : RequestBody} {r : BodyEncode}
    (hbody : o.requestBody = some b) (hcs : contractParams o = .ok cs)
    (hr : bodyEncode refs b = .ok r)
    (harms : o.responseBody.variants.mapM (fun e => decodeArm refs e.1 e.2) = .ok arms) :
    ∃ k, clientMethod refs o = .ok k ∧ k.body = some r := by
  unfold clientMethod
  rw [hcs, hbody, harms]
  dsimp only
  rw [hr]
  exact ⟨_, rfl, rfl⟩

theorem exists_clientModule_of_methods {ks : List ClientMethod} (hcheck : checkNames m = .ok ())
    (hks : m.operations.mapM (clientMethod m.refs) = .ok ks) : ∃ s, clientModule m = .ok s := by
  unfold clientModule
  rw [hcheck, hks]
  exact ⟨_, rfl⟩

end Made

section Hosts

open Resolve (hostMetadata hostOperation faultPointer fault)

/-- The client method of the operation of the document with several responses. -/
def hostClient : ClientMethod where
  doc := "listHosts"
  method := .get
  path := "/hosts"
  ident := "list_hosts"
  params := [
    ⟨some "server", "server", .scalar .int⟩,
    ⟨some "server_param", "server_param", .scalar .int⟩,
    ⟨some "url", "url", .scalar .int⟩]
  sent := [
    ⟨"server", "server", .query, true⟩,
    ⟨"server_param", "server_param", .query, true⟩,
    ⟨"url", "url", .query, true⟩]
  body := none
  response := "ListHostsResponse"
  arms := [
    { status := some 200
      tag := "File"
      bindings := ["file", "list_hosts_response_file_headers"]
      headers := some ("list_hosts_response_file_headers", .model "ListHostsResponseFileHeaders",
        [⟨"x_total", "X-Total", true, .int⟩])
      body := .file "file" },
    { status := some 404
      tag := "NotFound"
      bindings := []
      headers := none
      body := .empty },
    { status := none
      tag := "Fault"
      bindings := ["fault"]
      headers := none
      body := .json "fault" (.model "Fault") }]

theorem clientMethod_hosts : clientMethod hostMetadata.refs hostOperation = .ok hostClient := by
  have hrecord : typeOf hostMetadata.refs (.object (some "ListHostsResponseFileHeaders")
      [{ name := "X-Total", type := .primitive .int, required := true }]) =
      .ok (.model "ListHostsResponseFileHeaders") :=
    typeOf_eq_model_iff.2 ⟨_, rfl, rfl⟩
  have hfault : typeOf hostMetadata.refs (.ref faultPointer) = .ok (.model "Fault") :=
    typeOf_eq_model_iff.2 ⟨fault, rfl, rfl⟩
  have harms : hostOperation.responseBody.variants.mapM
      (fun e => decodeArm hostMetadata.refs e.1 e.2) = .ok hostClient.arms := by
    refine mapM_eq_ok.2 (.cons ?_ (.cons rfl (.cons ?_ .nil)))
    · exact bind_eq_ok.2 ⟨_, hrecord, rfl⟩
    · have hread : (typeOf hostMetadata.refs (.ref faultPointer)).map (ResponseRead.json "fault") =
          .ok (.json "fault" (.model "Fault")) := map_eq_ok.2 ⟨_, hfault, rfl⟩
      refine bind_eq_ok.2 ⟨_, rfl, ?_⟩
      exact bind_eq_ok.2 ⟨_, hread, rfl⟩
  have hparams : contractParams hostOperation = .ok hostClient.params := rfl
  unfold clientMethod
  rw [hparams, harms]
  rfl

theorem exists_clientModule_hosts : ∃ s, clientModule hostMetadata = .ok s := by
  have hmethods : hostMetadata.operations.mapM (clientMethod hostMetadata.refs) =
      .ok [hostClient] :=
    mapM_eq_ok.2 (.cons clientMethod_hosts .nil)
  exact exists_clientModule_of_methods checkNames_hosts hmethods

end Hosts

section Clients

open Resolve (hostDocument hostMetadata hostOperation resolve_hostDocument)

variable {m : Metadata} {s : SourceModule} {o : Operation}

theorem infix_clientCode {k : ClientMethod} {ks : List ClientMethod} (ident : String)
    (hk : k ∈ ks) : k.code <:+: clientCode ident ks := by
  have hlast : ∀ before inner c : Code, c <:+: before ++ braces (inner ++ c) := by
    intro before inner c
    exact ⟨before ++ .mark '\x7b' :: inner, [.mark '\x7d'], by simp [braces]⟩
  exact (infix_flatMap hk).trans (hlast _ _ _)

theorem exists_clientMethod (h : clientModule m = .ok s) (ho : o ∈ m.operations) :
    ∃ k, clientMethod m.refs o = .ok k ∧ k.code <:+: s.code := by
  obtain ⟨_, -, h⟩ := bind_eq_ok.1 h
  obtain ⟨ks, hks, h⟩ := bind_eq_ok.1 h
  obtain rfl := Except.ok.inj h
  obtain ⟨k, hk, hok⟩ := exists_of_mem_right (mapM_eq_ok.1 hks).flip ho
  exact ⟨k, hok, (infix_clientCode _ hk).trans (List.suffix_append _ _).isInfix⟩

/-- The client method of every operation mentions every parameter once, for its own place, and finds
its own names with their own meaning.  Where a parameter is sent, its identifier stands for its
argument unless it is captured. -/
theorem client_arguments (h : clientModule m = .ok s) (ho : o ∈ m.operations) :
    ∃ k, clientMethod m.refs o = .ok k ∧ k.code <:+: s.code ∧ ClientMethodText k k.code ∧
      SendsArguments o k := by
  obtain ⟨k, hk, hcode⟩ := exists_clientMethod h ho
  obtain ⟨cs, hcs, hof⟩ := clientMethod_eq_ok hk
  refine ⟨k, hk, hcode, k.text, hof.sent, mentions_perm k, fun _ _ hs n hn =>
    latest?_own_of_mem_scopes hs hn, fun s known hs q hq => ?_⟩
  have hsent : q ∈ k.sent := by
    obtain ⟨before, after, he, -⟩ := Code.mem_scopes_iff.1 hs
    refine (mentions_perm k).subset (List.mem_flatMap.2 ⟨s, ?_, hq⟩)
    simp [he]
  obtain ⟨own, rfl, hfinds⟩ := exists_finds hs
  rw [hfinds.mentions q hq]
  exact latest?_ident_iff hof hcs hsent

theorem client_arguments_hosts :
    hostDocument.resolve "Api" = .ok (hostMetadata, []) ∧
      ∃ s, clientModule hostMetadata = .ok s ∧ hostOperation ∈ hostMetadata.operations ∧
        ∃ k, clientMethod hostMetadata.refs hostOperation = .ok k ∧ k.code <:+: s.code ∧
          ClientMethodText k k.code ∧ SendsArguments hostOperation k := by
  obtain ⟨s, hs⟩ := exists_clientModule_hosts
  have ho : hostOperation ∈ hostMetadata.operations := List.mem_cons_self
  exact ⟨resolve_hostDocument, s, hs, ho, client_arguments hs ho⟩

/-- A parameter of the query may have the identifier of the address that is made before it is sent.
Then the address is sent in its place. -/
theorem client_sends_captured :
    hostDocument.resolve "Api" = .ok (hostMetadata, []) ∧
      (∃ s, clientModule hostMetadata = .ok s) ∧
      clientMethod hostMetadata.refs hostOperation = .ok hostClient ∧
      ∃ s known, (s, known) ∈ scopes hostClient.entry hostClient.statements ∧
        s.mentions = [⟨"url", "url", .query, true⟩] ∧ known.latest? "url" = some .own := by
  refine ⟨resolve_hostDocument, exists_clientModule_hosts, clientMethod_hosts,
    SentParam.statement "query" ⟨"url", "url", .query, true⟩, _,
    Code.mem_scopes_iff.2 ⟨hostClient.statements.take 4, [hostClient.requesting], rfl, rfl⟩, rfl,
      rfl⟩

end Clients

end Emit
end ApiContract
