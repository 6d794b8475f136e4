import ApiContract.Proofs.PetRecords
import ApiContract.Proofs.PetRequests
import ApiContract.Proofs.PetRoutes

/-!
# What answers say of the pets

**Input:** a server of pets, and a request.

A pet is added exactly if the answer has status 201, and removed exactly if it has status 204.  No
other answer goes with a change of the pets.

**Results:**

* `createPet_cases`, `deletePet_cases`: when a pet is taken or deleted, and the answer if it is not;
* `served_cases`: a request asks for a new pet, for a deletion, or for something that keeps the
  pets.
-/

namespace ApiContract

/-- The text of a header field is the one that it was written with. -/
theorem Headers.valueText?_eq_some {v : ByteArray} {s : String} (h : valueText? v = some s) :
    v = s.toUTF8 := by
  unfold valueText? at h
  dsimp only at h
  split at h
  · rename_i hvisible
    obtain rfl := Option.some.inj h
    have hlt : ∀ b ∈ Bytes.toList v, b.toNat < 128 := by
      intro b hb
      have hb := List.all_eq_true.1 hvisible b hb
      simp only [isVisible, Bool.or_eq_true, Bool.and_eq_true, decide_eq_true_eq,
        UInt8.lt_iff_toNat_lt, ← UInt8.toNat_inj] at hb
      have h127 : (127 : UInt8).toNat = 127 := rfl
      have h9 : (9 : UInt8).toNat = 9 := rfl
      omega
    have hchar : ∀ b ∈ Bytes.toList v, (Char.ofNat b.toNat).toNat = b.toNat := by
      intro b hb
      have := hlt b hb
      have hvalid : b.toNat.isValidChar := Or.inl (by omega)
      rw [Char.ofNat, dif_pos hvalid]
      rfl
    have hbytes : Bytes.toList v =
        Bytes.toList (String.ofList ((Bytes.toList v).map fun b => Char.ofNat b.toNat)).toUTF8 := by
      rw [toList_toUTF8]
      · rw [String.toList_ofList, List.map_map]
        refine ((List.map_congr_left fun b hb => ?_).trans (List.map_id _)).symm
        change (Char.ofNat b.toNat).toNat.toUInt8 = b
        rw [hchar b hb]
        exact UInt8.ofNat_toNat
      · intro c hc
        rw [String.toList_ofList] at hc
        obtain ⟨b, hb, rfl⟩ := List.mem_map.1 hc
        rw [hchar b hb]
        exact hlt b hb
    exact congrArg Bytes.ofList hbytes
  · cases h

namespace PetStore

open Server (responseOf onStore)

/-! ## Statuses -/

/-- An answer with which no change of the pets goes. -/
def Keeps (result : Except HandlerError Response) : Prop :=
  (responseOf result).status ≠ 201 ∧ (responseOf result).status ≠ 204

section Statuses

variable {s : Store} {r : Request} {petId : Option String}

theorem keeps_of_status {result : Except HandlerError Response} {n : Nat}
    (h : (responseOf result).status = n) (hn : n ≠ 201 ∧ n ≠ 204) : Keeps result := by
  subst h
  exact hn

theorem keeps_of_mem {result : Except HandlerError Response} {ns : List Nat}
    (h : (responseOf result).status ∈ ns) (hns : ∀ n ∈ ns, n ≠ 201 ∧ n ≠ 204) : Keeps result :=
  hns _ h

theorem keeps_error (e : HandlerError) : Keeps (.error e) :=
  keeps_of_mem (status_error e) (by decide)

/-- The header field for what follows a page can be written. -/
theorem keeps_pageResponse (page : Store.Page) : Keeps (pageResponse page) := by
  have hcode : ResponseWriter.ofCode 200 = .ok { status := 200 } := rfl
  obtain ⟨name, hname⟩ : ∃ n, Headers.name? "x-next" = some n := ⟨_, rfl⟩
  simp only [pageResponse, hcode, ResponseWriter.headerIfGiven, ResponseWriter.header_eq,
    hname, bind,
    Except.bind]
  cases page.next with
  | none => exact keeps_of_status (n := 200) rfl (by decide)
  | some next =>
      dsimp only
      by_cases hvalue : Headers.isValue next.toUTF8
      · rw [if_pos hvalue]
        exact keeps_of_status (n := 200) rfl (by decide)
      · rw [if_neg hvalue]
        exact keeps_error _

theorem keeps_listPets : Keeps (listPets r s) := by
  unfold listPets
  cases (Param.readOptional "limit" (r.queryParam? "limit") Scalar.readInt?).mapError
      HandlerError.request with
  | error e => exact keeps_error e
  | ok limit =>
      dsimp only [bind, Except.bind]
      unfold Store.list
      by_cases hlimit : limit.any (· ≤ 0) = true
      · rw [if_pos hlimit]
        exact keeps_of_status (n := 400) rfl (by decide)
      · rw [if_neg hlimit]
        exact keeps_pageResponse _

theorem keeps_showPet : Keeps (showPet r petId s) := by
  unfold showPet
  cases readPetId petId with
  | error e => exact keeps_error e
  | ok petId =>
      cases readHeader r "x-version" Scalar.readInt? with
      | error e => exact keeps_error e
      | ok version =>
          dsimp only [bind, Except.bind]
          cases s.find? petId with
          | none => exact keeps_of_status (n := 404) rfl (by decide)
          | some p => exact keeps_of_status (n := 200) rfl (by decide)

theorem keeps_redirect : Keeps redirect := by
  have hcode : ResponseWriter.ofCode 302 = .ok { status := 302 } := rfl
  simp only [redirect, hcode, bind, Except.bind]
  cases hheader : ResponseWriter.header { status := 302 } "Location" home with
  | error e => exact keeps_error e
  | ok w =>
      rw [ResponseWriter.header_eq] at hheader
      split at hheader
      · cases hheader
      · split at hheader
        · obtain rfl := Except.ok.inj hheader
          exact keeps_of_status (n := 302) rfl (by decide)
        · cases hheader

theorem keeps_avatarResponse (d : Disk) (a : Store.Avatar) : Keeps (avatarResponse d a) :=
  keeps_of_mem (status_avatarResponse d a) (by decide)

/-- Avatars and the pets known by two lists are no concern of the pets. -/
theorem keeps_getAvatar {w : Workspace} : (getAvatar petId s w).store.pets = s.pets ∧
    Keeps (getAvatar petId s w).result := by
  unfold getAvatar
  cases readPetId petId with
  | error e => exact ⟨rfl, keeps_error e⟩
  | ok petId =>
      dsimp only
      unfold Store.avatar
      cases w.disk.makeTemporary ("avatar-" ++ petId ++ "-") ".bin" with
      | error fault => exact ⟨rfl, keeps_error _⟩
      | ok made =>
          obtain ⟨d, path⟩ := made
          dsimp only
          cases d.write path Store.avatarBytes with
          | error fault => exact ⟨rfl, keeps_error _⟩
          | ok d => exact ⟨rfl, keeps_avatarResponse _ _⟩

theorem keeps_putAvatar {w : Workspace} : (putAvatar r petId s w).store.pets = s.pets ∧
    Keeps (putAvatar r petId s w).result := by
  unfold putAvatar
  cases readPetId petId with
  | error e => exact ⟨rfl, keeps_error e⟩
  | ok petId =>
      dsimp only
      obtain ⟨w', result⟩ := readAvatar r w
      cases result with
      | error e => exact ⟨rfl, keeps_error _⟩
      | ok given =>
          obtain ⟨photo, description⟩ := given
          dsimp only
          unfold Store.receive
          cases w'.disk.read photo.path with
          | error fault => exact ⟨rfl, keeps_error _⟩
          | ok bytes =>
              dsimp only
              split_ifs
              · exact ⟨rfl, keeps_error _⟩
              · exact ⟨rfl, keeps_of_status (n := 200) rfl (by decide)⟩

theorem keeps_takeCustomPet : (takeCustomPet r s).1.pets = s.pets ∧
    Keeps (takeCustomPet r s).2 := by
  unfold takeCustomPet
  cases readCustomPet r with
  | error e => exact ⟨rfl, keeps_error _⟩
  | ok p => exact ⟨rfl, keeps_of_status (n := 200) rfl (by decide)⟩

end Statuses

/-! ## New pets -/

section NewPets

variable {s s' : Store} {r : Request} {p : Pet}

/-- A pet is taken with status 201, or nothing is kept of the request. -/
theorem createPet_cases (r : Request) (s : Store) :
    (∃ p s', readPet r = .ok p ∧ s.create p = .ok s' ∧ createPet r s = (s', bare 201)) ∨
      ((∀ p s', readPet r = .ok p → s.create p ≠ .ok s') ∧ (createPet r s).1 = s ∧
        Keeps (createPet r s).2) := by
  unfold createPet
  cases hread : readPet r with
  | error e => exact Or.inr ⟨(fun p s' h => by cases h), rfl, keeps_error _⟩
  | ok p =>
      dsimp only
      cases hcreate : s.create p with
      | ok s' => exact Or.inl ⟨p, s', rfl, hcreate, rfl⟩
      | error problem =>
          refine Or.inr ⟨fun q s' hq => ?_, rfl, ?_⟩
          · obtain rfl := Except.ok.inj hq
            simp [hcreate]
          · unfold Store.create at hcreate
            split_ifs at hcreate
            · obtain rfl := Except.error.inj hcreate
              exact keeps_of_status (n := 422) rfl (by decide)
            · obtain rfl := Except.error.inj hcreate
              exact keeps_of_status (n := 409) rfl (by decide)

end NewPets

/-! ## Deletions -/

/-- A request with the token that lets a client delete pets, and nothing else, in its first header
field of that name. -/
def Authorized (r : Request) : Prop :=
  r.headers.get? "Authorization" = some Store.bearer.toUTF8

section Deletions

variable {s : Store} {r : Request} {text : String}

theorem authorized_iff :
    Authorized r ↔ readHeader r "Authorization" Scalar.readText? = .ok Store.bearer := by
  unfold Authorized readHeader Param.headerText
  cases hget : r.headers.get? "Authorization" with
  | none => simp [Param.readRequired, Param.readOptional, bind, Except.bind, Except.mapError]
  | some v =>
      dsimp only
      cases htext : Headers.valueText? v with
      | none =>
          refine ⟨fun h => ?_, fun h => by cases h⟩
          obtain rfl := Option.some.inj h
          rw [Headers.valueText?_toUTF8 (by decide)] at htext
          cases htext
      | some a =>
          obtain rfl := Headers.valueText?_eq_some htext
          constructor
          · intro h
            rw [Option.some.inj h, Headers.valueText?_toUTF8 (by decide)] at htext
            obtain rfl := Option.some.inj htext
            rfl
          · intro h
            have ha : a = Store.bearer := by
              by_cases hempty : a = ""
              · subst hempty
                cases h
              · simp only [Param.readRequired, Param.readOptional, bind, Except.bind, hempty,
                  if_false, Scalar.readText?, Except.mapError] at h
                exact Except.ok.inj h
            rw [ha]

/-- A text that names a pet can be given as a parameter. -/
theorem readPetId_of_find? {p : Pet} (h : s.find? text = some p) :
    readPetId (some text) = .ok text := by
  have hne : text ≠ "" := by
    rintro rfl
    cases h
  simp [readPetId, Param.readRequired, Param.readOptional, hne, Scalar.readText?, Except.mapError]

theorem readPetId_eq_ok {t : String} (h : readPetId (some text) = .ok t) : t = text := by
  unfold readPetId Param.readRequired Param.readOptional at h
  by_cases hempty : text = ""
  · subst hempty
    cases h
  · simp only [hempty, if_false, Scalar.readText?, Except.mapError] at h
    exact (Except.ok.inj h).symm

/-- A pet is deleted with status 204, or nothing is kept of the request. -/
theorem deletePet_cases (r : Request) (text : String) (s : Store) :
    (∃ p, Authorized r ∧ s.find? text = some p ∧ deletePet r (some text) s =
        ({ s with pets := s.pets.filter (·.id ≠ p.id) }, bare 204)) ∨
      (¬ (Authorized r ∧ s.find? text ≠ none) ∧ (deletePet r (some text) s).1 = s ∧
        Keeps (deletePet r (some text) s).2) := by
  by_cases hgranted : Authorized r ∧ s.find? text ≠ none
  · obtain ⟨hauthorized, hsome⟩ := hgranted
    obtain ⟨p, hp⟩ := Option.ne_none_iff_exists'.1 hsome
    refine Or.inl ⟨p, hauthorized, hp, ?_⟩
    have hread : readDeletion r (some text) = .ok (Store.bearer, text) := by
      rw [readDeletion, authorized_iff.1 hauthorized, readPetId_of_find? hp]
      rfl
    unfold deletePet
    rw [hread]
    dsimp only
    rw [Store.delete, if_neg (by simp), hp]
    rfl
  · refine Or.inr ⟨hgranted, ?_⟩
    unfold deletePet
    cases hread : readDeletion r (some text) with
    | error e => exact ⟨rfl, keeps_error e⟩
    | ok given =>
        obtain ⟨authorization, named⟩ := given
        obtain ⟨a, ha, hrest⟩ := Emit.bind_eq_ok.1 hread
        obtain ⟨t, ht, hrest⟩ := Emit.bind_eq_ok.1 hrest
        obtain ⟨rfl, rfl⟩ := Prod.mk.inj (Except.ok.inj hrest)
        dsimp only
        rw [Store.delete]
        by_cases hbearer : a = Store.bearer
        · subst hbearer
          obtain rfl := readPetId_eq_ok ht
          have hnone : s.find? t = none := by
            by_contra hsome
            exact hgranted ⟨authorized_iff.2 ha, hsome⟩
          rw [if_neg (by simp), hnone]
          exact ⟨rfl, keeps_of_status (n := 404) rfl (by decide)⟩
        · rw [if_pos hbearer]
          exact ⟨rfl, keeps_of_status (n := 401) rfl (by decide)⟩

end Deletions

/-! ## Requests by their paths -/

namespace Server

/-- The text that the path of a request to one pet gives for its id. -/
def petText? (r : Request) : Option String :=
  match Text.pieces (· = '/') r.path with
  | [[], words, raw] => if words = "pets".toList ∧ raw ≠ [] then decoded? raw else none
  | _ => none

/-- The id that the path of a request to one pet names. -/
def namedId? (r : Request) : Option Int :=
  (petText? r).bind Scalar.readLong?

section Paths

variable {v : Server} {r : Request} {text : String} {id : Int} {x : Served}

theorem petText?_eq_some_iff : petText? r = some text ↔
    ∃ raw, r.path = "/pets/".toList ++ raw ∧ '/' ∉ raw ∧ raw ≠ [] ∧ decoded? raw = some text := by
  constructor
  · intro h
    unfold petText? at h
    split at h
    · rename_i words raw hpieces
      split at h
      · rename_i hgiven
        obtain ⟨rfl, hraw⟩ := hgiven
        obtain ⟨hpath, hslash⟩ := pieces_pet_iff.1 hpieces
        exact ⟨raw, hpath, hslash, hraw, h⟩
      · cases h
    · cases h
  · rintro ⟨raw, hpath, hslash, hraw, htext⟩
    unfold petText?
    rw [pieces_pet_iff.2 ⟨hpath, hslash⟩]
    dsimp only
    rw [if_pos ⟨rfl, hraw⟩, htext]

/-- The path with the decimal digits of an id names it. -/
theorem namedId?_toString (hfits : Decimal.fitsSigned 64 id = true)
    (hpath : r.path = "/pets/".toList ++ (toString id).toList) : namedId? r = some id := by
  have hne : (toString id).toList ≠ [] := by
    intro hnil
    have hread := Decimal.signed?_toString id
    rw [hnil] at hread
    cases hread
  have htext : petText? r = some (toString id) := petText?_eq_some_iff.2
    ⟨_, hpath, slash_not_mem_toString id, hne, decoded?_toString id⟩
  rw [namedId?, htext]
  exact Scalar.readLong?_toString hfits

section Endpoints

variable (hroutes : v.routes = .ofList endpoints)

include hroutes

theorem served?_createPet (hmethod : r.method = "POST") (hpath : r.path = "/pets".toList) :
    v.served? r = some (onStore { disk := v.disk } (createPet r v.store)) := by
  refine served?_eq_some_iff.2 ⟨.createPet, [], ?_, by simp, rfl⟩
  rw [hroutes, route_endpoints_iff, pieces_pets_iff.2 hpath]
  exact .createPet hmethod

theorem served?_listPets (hmethod : r.method = "GET") (hpath : r.path = "/pets".toList) :
    v.served? r = some ⟨v.store, { disk := v.disk }, listPets r v.store⟩ := by
  refine served?_eq_some_iff.2 ⟨.listPets, [], ?_, by simp, rfl⟩
  rw [hroutes, route_endpoints_iff, pieces_pets_iff.2 hpath]
  exact .listPets (Or.inl hmethod)

theorem served?_deletePet (hmethod : r.method = "DELETE") (htext : petText? r = some text) :
    v.served? r = some (onStore { disk := v.disk } (deletePet r (some text) v.store)) := by
  obtain ⟨raw, hpath, hslash, hraw, hdecoded⟩ := petText?_eq_some_iff.1 htext
  refine served?_eq_some_iff.2 ⟨.deletePet, [("petId", raw)], ?_, ?_, ?_⟩
  · rw [hroutes, route_endpoints_iff, pieces_pet_iff.2 ⟨hpath, hslash⟩]
    exact .deletePet hraw hmethod
  · simp [hdecoded]
  · simp [hdecoded, serve]

theorem served?_showPet (hmethod : r.method = "GET") (htext : petText? r = some text) :
    v.served? r = some ⟨v.store, { disk := v.disk }, showPet r (some text) v.store⟩ := by
  obtain ⟨raw, hpath, hslash, hraw, hdecoded⟩ := petText?_eq_some_iff.1 htext
  refine served?_eq_some_iff.2 ⟨.showPet, [("petId", raw)], ?_, ?_, ?_⟩
  · rw [hroutes, route_endpoints_iff, pieces_pet_iff.2 ⟨hpath, hslash⟩]
    exact .showPet hraw (Or.inl hmethod)
  · simp [hdecoded]
  · simp [hdecoded, serve]

/-- A request asks for a new pet, for a deletion, or for something that keeps the pets. -/
theorem served_cases (h : v.served? r = some x) :
    (r.method = "POST" ∧ r.path = "/pets".toList ∧
        x = onStore { disk := v.disk } (createPet r v.store)) ∨
      (∃ text, r.method = "DELETE" ∧ petText? r = some text ∧
        x = onStore { disk := v.disk } (deletePet r (some text) v.store)) ∨
      (x.store.pets = v.store.pets ∧ Keeps x.result) := by
  obtain ⟨e, params, hroute, hdecoded, rfl⟩ := served?_eq_some_iff.1 h
  rw [hroutes, route_endpoints_iff] at hroute
  generalize hpieces : Text.pieces (· = '/') r.path = pieces at hroute
  cases hroute with
  | createPet hm => exact Or.inl ⟨hm, pieces_pets_iff.1 hpieces, rfl⟩
  | @deletePet raw hraw hm =>
      obtain ⟨hpath, hslash⟩ := pieces_pet_iff.1 hpieces
      obtain ⟨text, htext⟩ : ∃ text, decoded? raw = some text := by
        cases hd : decoded? raw with
        | none => simp [hd] at hdecoded
        | some text => exact ⟨text, rfl⟩
      refine Or.inr (Or.inl ⟨text, hm,
        petText?_eq_some_iff.2 ⟨raw, hpath, hslash, hraw, htext⟩, ?_⟩)
      simp [htext, serve]
  | listPets hm => exact Or.inr (Or.inr ⟨rfl, keeps_listPets⟩)
  | showPet hraw hm => exact Or.inr (Or.inr ⟨rfl, keeps_showPet⟩)
  | getAvatar hm => exact Or.inr (Or.inr keeps_getAvatar)
  | putAvatar hm => exact Or.inr (Or.inr keeps_putAvatar)
  | redirect hm => exact Or.inr (Or.inr ⟨rfl, keeps_redirect⟩)
  | customPet hm => exact Or.inr (Or.inr keeps_takeCustomPet)

end Endpoints

end Paths

end Server
end PetStore
end ApiContract
