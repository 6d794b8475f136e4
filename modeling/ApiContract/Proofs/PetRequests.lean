import ApiContract.PetStore.Server

/-!
# What becomes of a request

**Input:** a server of pets, and a request.

A request reaches at most one endpoint.  What its handler leaves is known before anything that was
put off is done (`served?`), and the server afterwards and the response follow from it.

**Results:**

* `answer_of_served?`, `answer_of_not_served`: the server after a request, and the response;
* `served?_eq_some_iff`: which requests reach a handler, and what it leaves.
-/

namespace ApiContract
namespace PetStore
namespace Server

/-- What the handler of a request leaves, before what was put off is done; none if the request
reaches no handler. -/
def served? (v : Server) (r : Request) : Option Served :=
  match v.routes.route r.method r.path with
  | .found e params =>
    let petId := (params.lookup "petId").map decoded?
    if petId = some none then none else some (serve e petId.join r v.store { disk := v.disk })
  | _ => none

/-- The response that the result of a handler stands for. -/
def responseOf : Except HandlerError Response → Response
  | .ok response => response
  | .error e => e.response

section Answers

variable {v : Server} {r : Request} {s : Served}

theorem status_headOnly (r : Request) (response : Response) :
    (headOnly r response).status = response.status := by
  unfold headOnly
  split <;> rfl

theorem headOnly_of_get (h : r.method = "GET") (response : Response) :
    headOnly r response = response := by
  rw [headOnly, if_neg (by simp [h])]

/-- A request that reaches a handler leaves what the handler leaves, once what was put off is
done. -/
theorem answer_of_served? (h : v.served? r = some s) :
    v.answer r = ({ v with store := s.store,
                           disk := (s.workspace.registry.cleanup s.workspace.disk).disk },
      headOnly r (responseOf s.result)) := by
  unfold served? at h
  unfold answer
  split at h
  · rename_i e params hroute
    rw [hroute]
    dsimp only at h ⊢
    split at h
    · cases h
    · rename_i hpet
      obtain rfl := Option.some.inj h
      rw [if_neg hpet]
      rfl
  · cases h

/-- A request that reaches no handler leaves the server as it was, and is refused. -/
theorem answer_of_not_served (h : v.served? r = none) :
    (v.answer r).1 = v ∧ (v.answer r).2.status ∈ [400, 404, 405] := by
  unfold served? at h
  unfold answer
  split at h
  · rename_i e params hroute
    rw [hroute]
    dsimp only at h ⊢
    split at h
    · rename_i hpet
      rw [if_pos hpet, status_headOnly]
      exact ⟨rfl, List.mem_cons_self⟩
    · cases h
  · rename_i hroute
    split
    · exact ⟨rfl, by simp⟩
    · exact ⟨rfl, by simp⟩
    · rename_i e params hfound
      exact absurd hfound (hroute e params)

theorem served?_eq_some_iff : v.served? r = some s ↔ ∃ e params,
    v.routes.route r.method r.path = .found e params ∧
      (params.lookup "petId").map decoded? ≠ some none ∧
      s = serve e ((params.lookup "petId").map decoded?).join r v.store { disk := v.disk } := by
  constructor
  · intro h
    unfold served? at h
    split at h
    · rename_i e params hroute
      dsimp only at h
      split at h
      · cases h
      · rename_i hpet
        exact ⟨e, params, hroute, hpet, (Option.some.inj h).symm⟩
    · cases h
  · rintro ⟨e, params, hroute, hpet, rfl⟩
    unfold served?
    rw [hroute]
    exact if_neg hpet

/-- Requests do not change what is served. -/
theorem routes_answer (v : Server) (r : Request) : (v.answer r).1.routes = v.routes := by
  cases h : v.served? r with
  | none => rw [(answer_of_not_served h).1]
  | some s => rw [answer_of_served? h]

end Answers

end Server

/-- A handler that fails is answered with status 400 or 500. -/
theorem status_error (e : HandlerError) : (Server.responseOf (.error e)).status ∈ [400, 500] := by
  cases e with
  | request e => exact List.mem_cons_self
  | _ => exact List.mem_cons_of_mem _ List.mem_cons_self

/-- An avatar that cannot be sent is answered with status 500, any other with status 200. -/
theorem status_avatarResponse (d : Disk) (a : Store.Avatar) :
    (Server.responseOf (avatarResponse d a)).status ∈ [200, 500] := by
  have hcode : ResponseWriter.ofCode 200 = .ok { status := 200 } := rfl
  have hname : ∃ n, Headers.name? "x-avatar-note" = some n := ⟨_, rfl⟩
  obtain ⟨n, hname⟩ := hname
  simp only [avatarResponse, hcode, ResponseWriter.header_eq, ResponseWriter.file, hname, bind,
    Except.bind]
  by_cases hvalue : Headers.isValue a.note.toUTF8
  · rw [if_pos hvalue]
    cases d.read a.path with
    | error fault => exact List.mem_cons_of_mem _ List.mem_cons_self
    | ok content => exact List.mem_cons_self
  · rw [if_neg hvalue]
    exact List.mem_cons_of_mem _ List.mem_cons_self

end PetStore
end ApiContract
