import ApiContract.Proofs.MemberBindings

/-!
# Statuses that can be sent

**Input:** a document that is resolved.

A handler begins a response with its status, and only numbers of three digits can be one.
Resolution takes every number of sixteen bits for a status.  A response that is named by its status
has one of a few; a response that is named by its body may have any.

**Results:**

* `begins_iff`: with which numbers a response can begin;
* `isNamed_of_responseVariant`: a response is named by its status, or it has a body;
* `resolve_statuses`: every declared status can be sent if and only if no operation declares a
  response under a number that is no status, and what a handler does otherwise;
* `response_cannot_begin`: a declared response with which no handler can begin.
-/

namespace ApiContract

/-- A response can begin with a number as its status. -/
def ResponseWriter.Begins (n : Nat) : Prop :=
  ∃ w, ofCode n = .ok w

namespace ResponseWriter

variable {n : Nat}

theorem begins_iff : Begins n ↔ 100 ≤ n ∧ n < 1000 := by
  unfold Begins ofCode
  constructor
  · rintro ⟨w, hw⟩
    split at hw
    · omega
    · cases hw
  · intro h
    rw [if_pos (by omega)]
    exact ⟨_, rfl⟩

/-- A response begins with the status that it is given. -/
theorem ofCode_of_begins (h : Begins n) : ofCode n = .ok { status := n } := by
  rw [begins_iff] at h
  rw [ofCode, if_pos (by omega), Int.toNat_natCast]

theorem ofCode_of_not_begins (h : ¬ Begins n) : ofCode n = .error (.invalidStatus n) := by
  rw [begins_iff] at h
  rw [ofCode, if_neg (by omega)]

end ResponseWriter

open ResponseWriter (Begins begins_iff)

namespace Resolve

/-! ## Names of responses -/

/-- A response has a body that can give it a name: JSON behind a pointer, or a file. -/
def HasNamingBody (v : Variant) : Prop :=
  (∃ pointer, v.payload = .body (.ref pointer) false) ∨ v.payload = .body .file true

/-- A response is named by its status or its body. -/
def IsNamed (status : Status) (v : Variant) : Prop :=
  statusName? status = some v.name ∨ HasNamingBody v

/-- Every status that names a response can be sent. -/
theorem begins_of_statusName? {n : Nat} {name : String} (h : statusName? (.code n) = some name) :
    Begins n := by
  rw [begins_iff]
  unfold statusName? at h
  split at h
  case h_8 => cases h
  all_goals
    rename_i hcode
    obtain rfl := Status.code.inj hcode
    decide

section Runs

variable {d : Document} {operationId className : String} {σ σ' : Progress} {status : Status}
  {v : Variant}

/-- A response that is resolved is named by its status or its body. -/
theorem isNamed_of_responseVariant {r : Document.Response}
    (h : (responseVariant d operationId className status r).run σ = .ok (v, σ')) :
    IsNamed status v := by
  obtain ⟨σ₁, -, ⟨s, t, -, hpayload, hb⟩ | ⟨-, -, ⟨-, hpayload, -⟩ | ⟨-, -, hname⟩⟩⟩ :=
    run_responseVariant_cases h
  · rcases run_jsonBody_cases hb with ⟨pointer, -, rfl, -⟩ | ⟨-, hname, -⟩
    · exact Or.inr (Or.inl ⟨pointer, hpayload⟩)
    · exact Or.inl hname
  · exact Or.inr (Or.inr hpayload)
  · exact Or.inl hname

/-- The statuses of an operation that is resolved are those under which it declares responses, and
its responses are named by their status or their body. -/
theorem statuses_of_responseBody {b : ResponseBody} {o : Document.Operation}
    (h : (responseBody d operationId o).run σ = .ok (b, σ')) :
    (∀ s, s ∈ b.variants.map Prod.fst ↔ ∃ r ∈ o.responses, Status.ofName? r.1 = some s) ∧
      ∀ e ∈ b.variants, IsNamed e.1 e.2 := by
  obtain ⟨-, hvs⟩ := run_responseBody h
  obtain ⟨-, -, vs, hdescribes, hput⟩ := run_responseVariants hvs
  refine ⟨fun s => ?_, forall_of_responseBody (P := fun e => IsNamed e.1 e.2)
    isNamed_of_responseVariant h⟩
  rw [hput, Assoc.keys_putAll, List.mem_eraseDups, List.mem_map]
  constructor
  · rintro ⟨e, he, rfl⟩
    obtain ⟨r, hr, htext, -⟩ := exists_of_mem_right hdescribes he
    exact ⟨r, hr, htext⟩
  · rintro ⟨r, hr, htext⟩
    obtain ⟨e, he, hstatus, -⟩ := exists_of_mem_right hdescribes.flip hr
    exact ⟨e, he, Option.some.inj (hstatus.symm.trans htext)⟩

end Runs

end Resolve

namespace Emit

open Code (flat word)
open Resolve

/-! ## Arms -/

/-- An arm in generated code writes a response that is declared under a number. -/
structure WritesStatus (generated : Code) (n : Nat) (v : Variant) (a : DispatchArm) : Prop where
  variant : a.tag = v.name
  status : flat "writer = ::bindery::ResponseWriter::from_code(" ++ word (toString n) ++
    flat ")?;" <:+:
    generated
  begins : Begins n → ∀ code, a.begun code = .ok { status := n }
  /-- If no response can begin with the number, then the handler fails for every response of the
  variant, and the answer is that of a fault in the server. -/
  fails : ¬ Begins n → ∀ code, a.begun code = .error (.invalidStatus n) ∧
    (HandlerError.invalidStatus n).response = { status := 500 }

section Arms

variable {o : Operation} {a : DispatchArm} {n : Nat} {v : Variant} {className : String}
  {generated : Code}

theorem DispatchArm.status_infix (ha : a.status = .fixed n) :
    flat "writer = ::bindery::ResponseWriter::from_code(" ++ word (toString n) ++ flat ")?;" <:+:
      a.code className := by
  have hstatement : ∀ before : Code,
      flat "writer = ::bindery::ResponseWriter::from_code(" ++ word (toString n) ++ flat ")?;" <:+:
        before ++ flat "writer = ::bindery::ResponseWriter::from_code(" ++ word (toString n) ++
          flat ")?;" := by
    intro before
    rw [List.append_assoc before, List.append_assoc before]
    exact (List.suffix_append _ _).isInfix
  unfold DispatchArm.code
  rw [ha]
  refine List.IsInfix.trans ?_ ((Code.infix_braces _).trans (List.suffix_append _ _).isInfix)
  -- Behind the statement stand the headers and the body.
  refine (hstatement _).trans ((List.prefix_append _ _).trans (List.prefix_append _ _)).isInfix

theorem writesStatus_of_dispatchArm (ha : dispatchArm o (.code n) v = .ok a)
    (hcode : a.code className <:+: generated) : WritesStatus generated n v a := by
  obtain ⟨htag, -, hsource⟩ := dispatchArm_eq_ok ha
  have hstatus : a.status = .fixed n := (Except.ok.inj hsource).symm
  have hbegun : ∀ code, a.begun code = ResponseWriter.ofCode n := by
    intro code
    rw [DispatchArm.begun, hstatus]
  exact {
    variant := htag
    status := (DispatchArm.status_infix hstatus).trans hcode
    begins := fun hn code => (hbegun code).trans (ResponseWriter.ofCode_of_begins hn)
    fails := fun hn code => ⟨(hbegun code).trans (ResponseWriter.ofCode_of_not_begins hn), rfl⟩ }

end Arms

/-! ## Documents -/

/-- A response can begin with every number under which an operation has a response, if and only if
every response is declared under a number of three digits.  Other numbers are not refused where the
body gives the response its name.  Then controllers are generated all the same, but a handler that
is given such a response answers that the server has failed. -/
theorem resolve_statuses {d : Document} {namePrefix : String} {m : Metadata} {ws : List Warning}
    (h : d.resolve namePrefix = .ok (m, ws)) :
    ((∀ o ∈ m.operations, ∀ n v, (.code n, v) ∈ o.responseBody.variants → Begins n) ↔
      ∀ e ∈ operationsOf d, ∀ r ∈ e.2.2.2.responses, ∀ n, Status.ofName? r.1 = some (.code n) →
        100 ≤ n ∧ n < 1000) ∧
    ∀ o ∈ m.operations, ∀ n v, (.code n, v) ∈ o.responseBody.variants →
      (Begins n ∨ HasNamingBody v) ∧
      ∀ s, controllerModule m = .ok s →
        ∃ k, handler m.refs o = .ok k ∧ ∃ a ∈ k.arms, WritesStatus s.code n v a := by
  have hresolved : List.Forall₂ (fun e o =>
      (∀ s, s ∈ o.responseBody.variants.map Prod.fst ↔
        ∃ r ∈ e.2.2.2.responses, Status.ofName? r.1 = some s) ∧
      ∀ f ∈ o.responseBody.variants, IsNamed f.1 f.2) (operationsOf d) m.operations := by
    refine (run_endpoints h).imp fun e o hrun => ?_
    obtain ⟨_, _, hrun⟩ := hrun
    obtain ⟨_, _, -, hbody⟩ := run_operation hrun
    exact statuses_of_responseBody hbody
  refine ⟨⟨fun hall e he r hr n htext => ?_, fun hall o ho n v hv => ?_⟩,
    fun o ho n v hv => ⟨?_, ?_⟩⟩
  · obtain ⟨o, ho, hstatuses, -⟩ := exists_of_mem_right hresolved.flip he
    obtain ⟨⟨s, v⟩, hv, hs⟩ := List.mem_map.1 ((hstatuses (.code n)).2 ⟨r, hr, htext⟩)
    obtain rfl : s = .code n := hs
    exact begins_iff.1 (hall o ho n v hv)
  · obtain ⟨e, he, hstatuses, -⟩ := exists_of_mem_right hresolved ho
    obtain ⟨r, hr, htext⟩ := (hstatuses (.code n)).1 (List.mem_map_of_mem hv)
    exact begins_iff.2 (hall e he r hr n htext)
  · obtain ⟨_, -, -, hnamed⟩ := exists_of_mem_right hresolved ho
    exact (hnamed _ hv).imp_left begins_of_statusName?
  · intro s hs
    obtain ⟨k, hk, hkcode⟩ := exists_handler hs ho
    obtain ⟨_, -, hkof⟩ := handler_eq_ok hk
    obtain ⟨a, ha, harm⟩ := exists_of_mem_right hkof.arms.flip hv
    exact ⟨k, hk, a, ha, writesStatus_of_dispatchArm harm ((Handler.arm_infix ha _).trans hkcode)⟩

theorem resolve_statuses_hosts :
    hostDocument.resolve "Api" = .ok (hostMetadata, []) ∧
      (∀ o ∈ hostMetadata.operations, ∀ n v, (.code n, v) ∈ o.responseBody.variants → Begins n) ∧
      ∃ s k, controllerModule hostMetadata = .ok s ∧
        handler hostMetadata.refs hostOperation = .ok k ∧
        ∃ a ∈ k.arms, WritesStatus s.code 200 hostFile a := by
  obtain ⟨hiff, hall⟩ := resolve_statuses resolve_hostDocument
  obtain ⟨s, hs⟩ := exists_controllerModule_hosts
  have hfile : (.code 200, hostFile) ∈ hostOperation.responseBody.variants := List.mem_cons_self
  obtain ⟨k, hk, hwrites⟩ := (hall hostOperation List.mem_cons_self 200 hostFile hfile).2 s hs
  have htexts : ∀ e ∈ operationsOf hostDocument, ∀ r ∈ e.2.2.2.responses,
      (Status.ofName? r.1).all fun s =>
        s == .code 200 || s == .code 404 || s == .default := by decide
  refine ⟨resolve_hostDocument, hiff.2 fun e he r hr n htext => ?_, s, k, hs, hk, hwrites⟩
  have hknown := htexts e he r hr
  rw [htext] at hknown
  have hn : n = 200 ∨ n = 404 := by simpa using hknown
  omega

/-- An operation with a file that is declared under a number of two digits. -/
def downloadHosts : Document.Operation where
  operationId := some "downloadHosts"
  responses := [("42", { emptyResponse with
    content := [("application/octet-stream", { schema := none })] })]

def downloadOperation : Operation where
  path := "/hosts"
  method := .get
  operationId := "downloadHosts"
  summary := none
  params := []
  requestBody := none
  responseBody := {
    className := "DownloadHostsResponse"
    variants := [(.code 42, { name := "File", headers := none, payload := .body .file true })] }

/-- The file is resolved and its handler is made, but the handler cannot begin the response. -/
theorem response_cannot_begin :
    Document.resolve { paths := [("/hosts", { get := some downloadHosts })] } "Api" =
        .ok ({ namePrefix := "Api", operations := [downloadOperation], refs := .empty }, []) ∧
      ResponseWriter.ofCode 42 = .error (.invalidStatus 42) ∧
      ∃ k a, handler .empty downloadOperation = .ok k ∧ k.arms = [a] ∧
        ∀ code, a.begun code = .error (.invalidStatus 42) ∧
          (HandlerError.invalidStatus 42).response.status = 500 :=
  ⟨rfl, rfl, _, _, rfl, rfl, fun _ => ⟨rfl, rfl⟩⟩

end Emit
end ApiContract
