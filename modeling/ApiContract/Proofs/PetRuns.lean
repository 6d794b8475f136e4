import ApiContract.Proofs.PetAnswers

/-!
# Pets over whole runs

**Input:** requests to a pet store, one after the other.

Every request keeps the pets in order, and its answer tells what became of them.  So over a run the
answers with status 201 and 204 that concern one id alternate, and what is listed is what is shown.

**Results:**

* `tells`: the pets after a request, by its answer;
* `alternating`: pets with one id are added and removed in turn;
* `consistent`: what is listed is what is shown, pet by pet;
* `run_consistent`: all of this for every run from the beginning.
-/

namespace ApiContract
namespace PetStore
namespace Server

/-! ## One request -/

/-- What the answer to a request says of the pets. -/
structure Tells (v : Server) (r : Request) : Prop where
  /-- The status is 201 exactly if a pet with a name and an id of its own was to be added. -/
  created : (v.answer r).2.status = 201 ↔ r.method = "POST" ∧ r.path = "/pets".toList ∧
    ∃ p, readPet r = .ok p ∧ Text.trim p.name.toList ≠ [] ∧ v.store.pet? p.id = none
  /-- Then the pet in the body is added, and no other. -/
  added : (v.answer r).2.status = 201 → ∀ p, readPet r = .ok p →
    ∀ q, q ∈ (v.answer r).1.store.pets ↔ q = p ∨ q ∈ v.store.pets
  /-- The status is 204 exactly if there was a pet to be removed, and the request has the token. -/
  deleted : (v.answer r).2.status = 204 ↔ r.method = "DELETE" ∧ Authorized r ∧
    ∃ id, namedId? r = some id ∧ v.store.pet? id ≠ none
  /-- Then the pet that the path names is removed, and no other. -/
  removed : (v.answer r).2.status = 204 → ∀ id, namedId? r = some id →
    ∀ q, q ∈ (v.answer r).1.store.pets ↔ q ∈ v.store.pets ∧ q.id ≠ id
  /-- With any other answer the pets stay as they are. -/
  kept : (v.answer r).2.status ≠ 201 → (v.answer r).2.status ≠ 204 →
    (v.answer r).1.store.pets = v.store.pets

section Requests

variable {v : Server} {r : Request}

theorem find?_eq_some_iff {s : Store} {text : String} {p : Pet} (h : petText? r = some text) :
    s.find? text = some p ↔ ∃ id, namedId? r = some id ∧ s.pet? id = some p := by
  rw [Store.find?, namedId?, h]
  exact Option.bind_eq_some_iff

/-- What becomes of the pets by a request, with the status of its answer. -/
theorem answer_cases (hroutes : v.routes = .ofList endpoints) (r : Request) :
    (∃ p s, r.method = "POST" ∧ r.path = "/pets".toList ∧ readPet r = .ok p ∧
        v.store.create p = .ok s ∧ (v.answer r).1.store = s ∧ (v.answer r).2.status = 201) ∨
      (∃ id p, r.method = "DELETE" ∧ Authorized r ∧ namedId? r = some id ∧
        v.store.pet? id = some p ∧
        (v.answer r).1.store = { v.store with pets := v.store.pets.filter (·.id ≠ p.id) } ∧
        (v.answer r).2.status = 204) ∨
      ((v.answer r).1.store.pets = v.store.pets ∧ (v.answer r).2.status ≠ 201 ∧
        (v.answer r).2.status ≠ 204) := by
  cases hserved : v.served? r with
  | none =>
      obtain ⟨hanswer, hstatus⟩ := answer_of_not_served hserved
      refine Or.inr (Or.inr ⟨by rw [hanswer], ?_, ?_⟩) <;>
      · intro h
        rw [h] at hstatus
        revert hstatus
        decide
  | some x =>
      rw [answer_of_served? hserved]
      dsimp only
      rw [status_headOnly]
      rcases served_cases hroutes hserved with ⟨hm, hpath, rfl⟩ | ⟨text, hm, htext, rfl⟩ | hkeeps
      · rcases createPet_cases r v.store with ⟨p, s, hread, hcreate, hmade⟩ | ⟨-, hstore, hkeeps⟩
        · refine Or.inl ⟨p, s, hm, hpath, hread, hcreate, ?_, ?_⟩
          · exact congrArg Prod.fst hmade
          · simp only [onStore, hmade]
            rfl
        · exact Or.inr (Or.inr ⟨congrArg Store.pets hstore, hkeeps⟩)
      · rcases deletePet_cases r text v.store with
          ⟨p, hauthorized, hfind, hmade⟩ | ⟨-, hstore, hkeeps⟩
        · obtain ⟨id, hid, hp⟩ := (find?_eq_some_iff htext).1 hfind
          refine Or.inr (Or.inl ⟨id, p, hm, hauthorized, hid, hp, ?_, ?_⟩)
          · exact congrArg Prod.fst hmade
          · simp only [onStore, hmade]
            rfl
        · exact Or.inr (Or.inr ⟨congrArg Store.pets hstore, hkeeps⟩)
      · exact Or.inr (Or.inr hkeeps)

/-- A pet with a name and an id of its own is taken. -/
theorem status_of_create (hroutes : v.routes = .ofList endpoints) {p : Pet} {s : Store}
    (hmethod : r.method = "POST") (hpath : r.path = "/pets".toList) (hread : readPet r = .ok p)
    (hcreate : v.store.create p = .ok s) : (v.answer r).2.status = 201 := by
  rw [answer_of_served? (served?_createPet hroutes hmethod hpath)]
  dsimp only
  rw [status_headOnly]
  rcases createPet_cases r v.store with ⟨q, s', -, -, hmade⟩ | ⟨hnot, -⟩
  · simp only [onStore, hmade]
    rfl
  · exact absurd hcreate (hnot p s hread)

/-- A pet that is there is deleted for whoever has the token. -/
theorem status_of_delete (hroutes : v.routes = .ofList endpoints) {id : Int} {p : Pet}
    (hmethod : r.method = "DELETE") (hauthorized : Authorized r) (hid : namedId? r = some id)
    (hp : v.store.pet? id = some p) : (v.answer r).2.status = 204 := by
  obtain ⟨text, htext, -⟩ := Option.bind_eq_some_iff.1 hid
  have hfind := (find?_eq_some_iff htext).2 ⟨id, hid, hp⟩
  rw [answer_of_served? (served?_deletePet hroutes hmethod htext)]
  dsimp only
  rw [status_headOnly]
  rcases deletePet_cases r text v.store with ⟨q, -, -, hmade⟩ | ⟨hnot, -⟩
  · simp only [onStore, hmade]
    rfl
  · exact absurd ⟨hauthorized, by simp [hfind]⟩ hnot

/-- The answer tells what becomes of the pets. -/
theorem tells (hroutes : v.routes = .ofList endpoints) (r : Request) : Tells v r := by
  refine ⟨⟨fun h => ?_, ?_⟩, ?_, ⟨fun h => ?_, ?_⟩, ?_, ?_⟩
  · rcases answer_cases hroutes r with
      ⟨p, s, hm, hpath, hread, hcreate, -⟩ | ⟨_, _, -, -, -, -, -, hstatus⟩ | ⟨-, hstatus, -⟩
    · obtain ⟨hname, hnone, -⟩ := Store.create_eq_ok_iff.1 hcreate
      exact ⟨hm, hpath, p, hread, hname, hnone⟩
    · rw [h] at hstatus
      cases hstatus
    · exact absurd h hstatus
  · rintro ⟨hm, hpath, p, hread, hname, hnone⟩
    exact status_of_create hroutes hm hpath hread (Store.create_eq_ok_iff.2 ⟨hname, hnone, rfl⟩)
  · intro h p hread q
    rcases answer_cases hroutes r with
      ⟨p', s, -, -, hread', hcreate, hstore, -⟩ | ⟨_, _, -, -, -, -, -, hstatus⟩ | ⟨-, hstatus, -⟩
    · obtain rfl := Except.ok.inj (hread'.symm.trans hread)
      obtain ⟨-, -, rfl⟩ := Store.create_eq_ok_iff.1 hcreate
      rw [hstore]
      exact Store.mem_insertPet
    · rw [h] at hstatus
      cases hstatus
    · exact absurd h hstatus
  · rcases answer_cases hroutes r with
      ⟨_, _, -, -, -, -, -, hstatus⟩ | ⟨id, p, hm, hauthorized, hid, hp, -⟩ | ⟨-, -, hstatus⟩
    · rw [h] at hstatus
      cases hstatus
    · exact ⟨hm, hauthorized, id, hid, by simp [hp]⟩
    · exact absurd h hstatus
  · rintro ⟨hm, hauthorized, id, hid, hsome⟩
    obtain ⟨p, hp⟩ := Option.ne_none_iff_exists'.1 hsome
    exact status_of_delete hroutes hm hauthorized hid hp
  · intro h id hid q
    rcases answer_cases hroutes r with
      ⟨_, _, -, -, -, -, -, hstatus⟩ | ⟨id', p, -, -, hid', hp, hstore, -⟩ | ⟨-, -, hstatus⟩
    · rw [h] at hstatus
      cases hstatus
    · obtain rfl := Option.some.inj (hid'.symm.trans hid)
      rw [hstore]
      simp [(Store.of_pet?_eq_some hp).2]
    · exact absurd h hstatus
  · intro hcreated hdeleted
    rcases answer_cases hroutes r with
      ⟨_, _, -, -, -, -, -, hstatus⟩ | ⟨_, _, -, -, -, -, -, hstatus⟩ | ⟨hpets, -, -⟩
    · exact absurd hstatus hcreated
    · exact absurd hstatus hdeleted
    · exact hpets

/-- The pets stay in order. -/
theorem kept_answer (hroutes : v.routes = .ofList endpoints) (h : v.store.Kept) (r : Request) :
    (v.answer r).1.store.Kept := by
  rcases answer_cases hroutes r with
    ⟨p, s, -, -, hread, hcreate, hstore, -⟩ | ⟨id, p, -, -, -, -, hstore, -⟩ | ⟨hpets, -⟩
  · rw [hstore]
    exact h.create (fits_of_readPet hread) hcreate
  · rw [hstore]
    exact h.remove p.id
  · exact ⟨hpets ▸ h.ascending, hpets ▸ h.fits⟩

/-! ## Lists and single pets -/

/-- What is listed is what is shown, pet by pet. -/
structure Consistent (v : Server) : Prop where
  /-- The pets have ids of their own and stand in ascending order of them. -/
  ascending : v.store.pets.Pairwise fun p q => p.id < q.id
  /-- Every pet is found under its own id, and nothing else is. -/
  keyed : ∀ id p, v.store.pet? id = some p ↔ p ∈ v.store.pets ∧ p.id = id
  /-- A list without a limit has all pets in their order. -/
  listed : ∀ r, r.method = "GET" → r.path = "/pets".toList →
    r.queryParam? "limit" ∈ [none, some ""] → (v.answer r).2.status = 200 ∧
      (v.answer r).2.body = (Pets.json ⟨v.store.pets⟩).compact.toUTF8
  /-- A pet is shown exactly if it is among them, and as it is listed. -/
  shown : ∀ r text version, r.method = "GET" → petText? r = some text →
    readHeader r "x-version" Scalar.readInt? = .ok version →
      ((v.answer r).2.status = 200 ↔ ∃ p ∈ v.store.pets, namedId? r = some p.id) ∧
        ∀ p ∈ v.store.pets, namedId? r = some p.id →
          (v.answer r).2.body = p.json.compact.toUTF8
  /-- Every pet can be asked for by its id. -/
  named : ∀ p ∈ v.store.pets, ∀ r : Request,
    r.path = "/pets/".toList ++ (toString p.id).toList → namedId? r = some p.id

theorem listPets_of_noLimit {s : Store} (h : r.queryParam? "limit" ∈ [none, some ""]) :
    listPets r s = withJson 200 (Pets.json ⟨s.pets⟩) := by
  have hlimit : Param.readOptional "limit" (r.queryParam? "limit") Scalar.readInt? = .ok none := by
    simp only [List.mem_cons, List.not_mem_nil, or_false] at h
    rcases h with h | h <;> rw [h] <;> rfl
  have hpage : s.list none = .ok { pets := ⟨s.pets⟩, next := none } := by
    simp [Store.list]
  unfold listPets
  rw [hlimit]
  simp only [Except.mapError, bind, Except.bind, hpage]
  rfl

theorem answer_showPet (hroutes : v.routes = .ofList endpoints) {text : String} {version : Int}
    (hmethod : r.method = "GET") (htext : petText? r = some text)
    (hversion : readHeader r "x-version" Scalar.readInt? = .ok version) {p : Pet}
    (hp : v.store.find? text = some p) :
    (v.answer r).2.status = 200 ∧ (v.answer r).2.body = p.json.compact.toUTF8 := by
  rw [answer_of_served? (served?_showPet hroutes hmethod htext)]
  have hshown : showPet r (some text) v.store = withJson 200 p.json := by
    unfold showPet
    rw [readPetId_of_find? hp, hversion]
    simp only [bind, Except.bind, hp]
  dsimp only
  rw [headOnly_of_get hmethod, hshown]
  exact ⟨rfl, rfl⟩

theorem status_showPet_of_none (hroutes : v.routes = .ofList endpoints) {text : String}
    {version : Int} (hmethod : r.method = "GET") (htext : petText? r = some text)
    (hversion : readHeader r "x-version" Scalar.readInt? = .ok version)
    (hnone : v.store.find? text = none) : (v.answer r).2.status ≠ 200 := by
  have hmem : (responseOf (showPet r (some text) v.store)).status ∈ [400, 404, 500] := by
    unfold showPet
    cases hread : readPetId (some text) with
    | error e =>
        have herror := status_error e
        simp only [List.mem_cons, List.not_mem_nil, or_false] at herror ⊢
        exact herror.imp_right Or.inr
    | ok given =>
        obtain rfl := readPetId_eq_ok hread
        rw [hversion]
        simp only [bind, Except.bind, hnone]
        exact List.mem_cons_of_mem _ List.mem_cons_self
  rw [answer_of_served? (served?_showPet hroutes hmethod htext)]
  dsimp only
  rw [status_headOnly]
  intro hstatus
  rw [hstatus] at hmem
  revert hmem
  decide

/-- A store in order is listed and shown as it is. -/
theorem consistent (hroutes : v.routes = .ofList endpoints) (h : v.store.Kept) : Consistent v where
  ascending := h.ascending
  keyed := fun _ _ => h.pet?_eq_some_iff
  listed := by
    intro r hmethod hpath hlimit
    rw [answer_of_served? (served?_listPets hroutes hmethod hpath)]
    dsimp only
    rw [headOnly_of_get hmethod, listPets_of_noLimit hlimit]
    exact ⟨rfl, rfl⟩
  shown := by
    intro r text version hmethod htext hversion
    refine ⟨⟨fun hstatus => ?_, ?_⟩, ?_⟩
    · cases hfind : v.store.find? text with
      | none => exact absurd hstatus (status_showPet_of_none hroutes hmethod htext hversion hfind)
      | some p =>
          obtain ⟨id, hid, hp⟩ := (find?_eq_some_iff htext).1 hfind
          obtain ⟨hmem, rfl⟩ := Store.of_pet?_eq_some hp
          exact ⟨p, hmem, hid⟩
    · rintro ⟨p, hp, hid⟩
      have hfind := (find?_eq_some_iff htext).2 ⟨p.id, hid, h.pet?_eq_some_iff.2 ⟨hp, rfl⟩⟩
      exact (answer_showPet hroutes hmethod htext hversion hfind).1
    · intro p hp hid
      have hfind := (find?_eq_some_iff htext).2 ⟨p.id, hid, h.pet?_eq_some_iff.2 ⟨hp, rfl⟩⟩
      exact (answer_showPet hroutes hmethod htext hversion hfind).2
  named := fun p hp r hpath => namedId?_toString (h.fits p hp) hpath

/-! ## Answers in turn -/

/-- What an answer says of the pet with an id: that it was added, or removed, or nothing. -/
def news? (id : Int) (r : Request) (a : Response) : Option Bool :=
  if a.status = 201 ∧ (readPet r).toOption.map (·.id) = some id then some true
  else if a.status = 204 ∧ namedId? r = some id then some false
  else none

/-- What answers say of the pet with an id, one after the other. -/
def news (id : Int) (rs : List Request) (answers : List Response) : List Bool :=
  (rs.zip answers).filterMap fun (r, a) => news? id r a

theorem isSome_pet?_iff {s : Store} {id : Int} :
    (s.pet? id).isSome = true ↔ ∃ q ∈ s.pets, q.id = id := by
  simp [Store.pet?]

theorem news?_of_created {a : Response} {p : Pet} (id : Int) (h : a.status = 201)
    (hread : readPet r = .ok p) : news? id r a = if p.id = id then some true else none := by
  simp [news?, h, hread, Except.toOption]

theorem news?_of_deleted {a : Response} (id : Int) (h : a.status = 204) :
    news? id r a = if namedId? r = some id then some false else none := by
  simp [news?, h]

theorem news?_of_kept {a : Response} (id : Int) (hcreated : a.status ≠ 201)
    (hdeleted : a.status ≠ 204) : news? id r a = none := by
  simp [news?, hcreated, hdeleted]

/-- A pet is added where none was and removed where one was; without news it is as before. -/
theorem news?_answer (hroutes : v.routes = .ofList endpoints) (r : Request) (id : Int) :
    match news? id r (v.answer r).2 with
    | some b => (v.store.pet? id).isSome = !b ∧ ((v.answer r).1.store.pet? id).isSome = b
    | none => ((v.answer r).1.store.pet? id).isSome = (v.store.pet? id).isSome := by
  have htells := tells hroutes r
  by_cases hcreated : (v.answer r).2.status = 201
  · obtain ⟨-, -, p, hread, -, hnone⟩ := htells.created.1 hcreated
    have hadded := htells.added hcreated p hread
    rw [news?_of_created id hcreated hread]
    by_cases hid : p.id = id
    · subst hid
      rw [if_pos rfl]
      exact ⟨by rw [hnone]; rfl, isSome_pet?_iff.2 ⟨p, (hadded p).2 (Or.inl rfl), rfl⟩⟩
    · rw [if_neg hid, Bool.eq_iff_iff, isSome_pet?_iff, isSome_pet?_iff]
      constructor
      · rintro ⟨q, hq, hqid⟩
        rcases (hadded q).1 hq with rfl | hq
        · exact absurd hqid hid
        · exact ⟨q, hq, hqid⟩
      · rintro ⟨q, hq, hqid⟩
        exact ⟨q, (hadded q).2 (Or.inr hq), hqid⟩
  · by_cases hdeleted : (v.answer r).2.status = 204
    · obtain ⟨-, -, named, hnamed, hsome⟩ := htells.deleted.1 hdeleted
      have hremoved := htells.removed hdeleted named hnamed
      rw [news?_of_deleted id hdeleted, hnamed]
      by_cases hid : named = id
      · subst hid
        rw [if_pos rfl]
        refine ⟨Option.isSome_iff_ne_none.2 hsome, ?_⟩
        rw [Bool.eq_false_iff, Ne, isSome_pet?_iff]
        rintro ⟨q, hq, hqid⟩
        exact ((hremoved q).1 hq).2 hqid
      · rw [if_neg (by simpa using hid), Bool.eq_iff_iff, isSome_pet?_iff, isSome_pet?_iff]
        constructor
        · rintro ⟨q, hq, hqid⟩
          exact ⟨q, ((hremoved q).1 hq).1, hqid⟩
        · rintro ⟨q, hq, rfl⟩
          exact ⟨q, (hremoved q).2 ⟨hq, fun h => hid h.symm⟩, rfl⟩
    · rw [news?_of_kept id hcreated hdeleted]
      dsimp only
      rw [Store.pet?, Store.pet?, htells.kept hcreated hdeleted]

/-- Pets with one id are added and removed in turn, beginning with what was not there or was. -/
theorem alternating (hroutes : v.routes = .ofList endpoints) (id : Int) (rs : List Request) :
    List.IsChain (· ≠ ·) ((v.store.pet? id).isSome :: news id rs (v.run rs).2) := by
  induction rs generalizing v with
  | nil => exact .singleton _
  | cons r rs ih =>
      have hrest := ih (v := (v.answer r).1) ((routes_answer v r).trans hroutes)
      have hnews := news?_answer hroutes r id
      have hrun : (v.run (r :: rs)).2 = (v.answer r).2 :: ((v.answer r).1.run rs).2 := rfl
      rw [hrun, news, List.zip_cons_cons, List.filterMap_cons]
      cases hn : news? id r (v.answer r).2 with
      | none =>
          simp only [hn] at hnews ⊢
          rw [← hnews]
          exact hrest
      | some b =>
          simp only [hn] at hnews ⊢
          obtain ⟨hbefore, hafter⟩ := hnews
          rw [hafter] at hrest
          exact .cons_cons (by simp [hbefore]) hrest

end Requests

/-! ## Runs -/

/-- What is served and the order of the pets outlast a run. -/
theorem run_kept {v : Server} (hroutes : v.routes = .ofList endpoints) (h : v.store.Kept)
    (rs : List Request) : (v.run rs).1.routes = .ofList endpoints ∧ (v.run rs).1.store.Kept := by
  induction rs generalizing v with
  | nil => exact ⟨hroutes, h⟩
  | cons r rs ih =>
      exact ih ((routes_answer v r).trans hroutes) (kept_answer hroutes h r)

/-- A pet is created, not created again, and deleted. -/
example :
    let create : Request := {
      method := "POST", target := "/pets"
      headers := Headers.ofList [("content-type", "application/json".toUTF8)]
      body := "\x7b\"id\":7,\"name\":\"Mouse\"\x7d".toUTF8 }
    let delete : Request := {
      method := "DELETE", target := "/pets/7"
      headers := Headers.ofList [("authorization", "Bearer secret".toUTF8)] }
    let rs := [create, create, delete]
    ((new (.blank ["work"])).run rs).2.map (·.status) = [201, 409, 204] ∧
      news 7 rs ((new (.blank ["work"])).run rs).2 = [true, false] := by
  decide +kernel

end Server
end PetStore
end ApiContract
