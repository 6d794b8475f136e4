import ApiContract.Proofs.FormReads
import ApiContract.Proofs.PetContract

/-!
# The service of a pet store

**Input:** the handlers that are generated from the contract of a pet store, and a request.

A generated handler reads the parameters, then the body, calls the service, and writes what the
service answers.  An endpoint of the pet store does the same, with its store for the service.

**Results:**

* `ParamRead.run`, `DispatchArm.run`: what the statements that read a parameter do, and those that
  write a response;
* `Serves`: an endpoint does what a handler says;
* `handlers_serve`: every endpoint of the pet store stands where the handler of an operation is
  routed to, and does what it says.
-/

namespace ApiContract
namespace Emit

/-! ## What the statements of a handler do -/

/-- The text of a parameter, from where it stands in the request. -/
def ParamRead.raw (path : String → Option String) (r : Request) (p : ParamRead) :
    Except RequestError (Option String) :=
  match p.location with
  | .path => .ok (path p.wire)
  | .query => .ok (r.queryParam? p.wire)
  | .header => Param.headerText r.headers p.wire

/-- What the statement that reads a parameter does. -/
def ParamRead.run (path : String → Option String) (r : Request) (p : ParamRead) :
    Except RequestError (Option Scalar) := do
  let raw ← p.raw path r
  if p.required then
    return some (← Param.readRequired p.wire raw (Scalar.read? p.scalar))
  else
    Param.readOptional p.wire raw (Scalar.read? p.scalar)

/-- What a handler reads of the parameters.  The first that cannot be read ends it. -/
def Handler.readParams (path : String → Option String) (r : Request) (k : Handler) :
    Except RequestError (List (Option Scalar)) :=
  k.reads.mapM (·.run path r)

/-- What a response carries: the status in its body, the texts of its headers, its value, its
file. -/
structure Carried where
  code : Int := 0
  headers : List (Option String) := []
  value : Json.Value := .null
  file : FilePath := ⟨""⟩

/-- Every header that is required has a text. -/
def Carried.Fits (c : Carried) (hs : List HeaderWrite) : Prop :=
  List.Forall₂ (fun h text => h.required = true → text.isSome = true) hs c.headers

/-- The status that a response is written with. -/
def StatusSource.code? (c : Carried) : StatusSource → Int
  | .fixed n => n
  | .body _ => c.code

/-- What the statements that write a response do. -/
def DispatchArm.run (d : Disk) (c : Carried) (a : DispatchArm) : Except HandlerError Response := do
  let w ← ResponseWriter.ofCode (a.status.code? c)
  let w ← (a.headers.zip c.headers).foldlM (fun w (h, text) => w.headerIfGiven h.wire text) w
  match a.body with
  | .empty => return w.empty
  | .json _ => w.json (some c.value)
  | .file _ => w.file d c.file

/-- The steps of an arm that writes one header. -/
theorem DispatchArm.run_header {a : DispatchArm} {h : HeaderWrite} {d : Disk} {c : Carried}
    {text : Option String} (ha : a.headers = [h]) (hc : c.headers = [text]) : a.run d c = (do
      let w ← ResponseWriter.ofCode (a.status.code? c)
      let w ← w.headerIfGiven h.wire text
      match a.body with
      | .empty => return w.empty
      | .json _ => w.json (some c.value)
      | .file _ => w.file d c.file) := by
  simp only [run, ha, hc, List.zip_cons_cons, List.zip_nil_right, List.foldlM_cons, List.foldlM_nil,
    bind_pure]

/-! ### Reading -/

section Reads

variable {α β : Type}

/-- Where what is read is given another form, so is the value of the parameter. -/
theorem readOptional_map (name : String) (raw : Option String) (read : String → Option α)
    (give : α → β) : Param.readOptional name raw (fun s => (read s).map give) =
      (Param.readOptional name raw read).map fun v => v.map give := by
  unfold Param.readOptional
  cases raw with
  | none => rfl
  | some s =>
      by_cases hs : s = ""
      · simp [hs, Except.map]
      · cases h : read s <;> simp [hs, h, Except.map]

theorem readRequired_map (name : String) (raw : Option String) (read : String → Option α)
    (give : α → β) : Param.readRequired name raw (fun s => (read s).map give) =
      (Param.readRequired name raw read).map give := by
  unfold Param.readRequired
  rw [readOptional_map]
  rcases Param.readOptional name raw read with e | v | v <;> rfl

end Reads

end Emit

namespace PetStore

open Emit (Handler ParamRead BodyRead FormRead DispatchArm Carried handler avatarForm
  readOptional_map readRequired_map)

/-! ## Handlers -/

section Handlers

/-- The read of the id of a pet. -/
def petIdRead : ParamRead where
  binding := "pet_id"
  wire := "petId"
  location := .path
  required := true
  scalar := .string

/-- The writing of a status alone. -/
def bareArm (tag : String) (code : Nat) : DispatchArm where
  tag
  bindings := []
  status := .fixed code
  headersBinding := ""
  headers := []
  body := .empty

/-- The writing of what went wrong. -/
def errorArm : DispatchArm where
  tag := "Error"
  bindings := ["error"]
  status := .body "error"
  headersBinding := ""
  headers := []
  body := .json "error"

def petForm : FormRead where
  record := "Pet"
  fields := [
    { ident := "id", wire := "id", required := true, kind := .scalar .int64 },
    { ident := "name", wire := "name", required := true, kind := .scalar .string },
    { ident := "tag", wire := "tag", required := false, kind := .scalar .string }]

def listPetsHandler : Handler where
  method := .get
  path := "/pets"
  ident := "list_pets"
  reads := [⟨"limit", "limit", .query, false, .int⟩]
  body := none
  arguments := ["limit"]
  response := "ListPetsResponse"
  arms := [
    { tag := "Pets"
      bindings := ["pets", "list_pets_response_pets_headers"]
      status := .fixed 200
      headersBinding := "list_pets_response_pets_headers"
      headers := [⟨"x-next", "x_next", false⟩]
      body := .json "pets" },
    errorArm]
  cleansUp := false

def createPetHandler : Handler where
  method := .post
  path := "/pets"
  ident := "create_pet"
  reads := []
  body := some {
    className := "CreatePetRequest"
    required := true
    arms := [⟨.json, "pet", .json⟩, ⟨.form, "pet", .form petForm⟩, ⟨.xml, "pet", .xml⟩] }
  arguments := ["request_body"]
  response := "CreatePetResponse"
  arms := [bareArm "Created" 201, errorArm]
  cleansUp := false

def showPetHandler : Handler where
  method := .get
  path := "/pets/\x7bpetId\x7d"
  ident := "show_pet_by_id"
  reads := [petIdRead, ⟨"x_version", "x-version", .header, true, .int⟩]
  body := none
  arguments := ["pet_id", "x_version"]
  response := "ShowPetByIdResponse"
  arms := [
    { tag := "Pet"
      bindings := ["pet"]
      status := .fixed 200
      headersBinding := ""
      headers := []
      body := .json "pet" },
    errorArm]
  cleansUp := false

def deletePetHandler : Handler where
  method := .delete
  path := "/pets/\x7bpetId\x7d"
  ident := "delete_pet"
  reads := [⟨"authorization", "Authorization", .header, true, .string⟩, petIdRead]
  body := none
  arguments := ["authorization", "pet_id"]
  response := "DeletePetResponse"
  arms := [bareArm "NoContent" 204, bareArm "NotFound" 404, errorArm]
  cleansUp := false

def getAvatarHandler : Handler where
  method := .get
  path := "/pets/\x7bpetId\x7d/avatar"
  ident := "get_avatar_by_pet_id"
  reads := [petIdRead]
  body := none
  arguments := ["pet_id"]
  response := "GetAvatarByPetIdResponse"
  arms := [
    { tag := "File"
      bindings := ["file", "get_avatar_by_pet_id_response_file_headers"]
      status := .fixed 200
      headersBinding := "get_avatar_by_pet_id_response_file_headers"
      headers := [⟨"x-avatar-note", "x_avatar_note", false⟩]
      body := .file "file" }]
  cleansUp := true

def putAvatarHandler : Handler where
  method := .put
  path := "/pets/\x7bpetId\x7d/avatar"
  ident := "update_avatar_by_id"
  reads := [petIdRead]
  body := some {
    className := "UpdateAvatarByIdRequest"
    required := true
    arms := [⟨.multipart, "avatar_upload", .multipart avatarForm⟩] }
  arguments := ["pet_id", "request_body"]
  response := "UpdateAvatarByIdResponse"
  arms := [bareArm "Ok" 200, errorArm]
  cleansUp := true

def redirectHandler : Handler where
  method := .get
  path := "/redirect"
  ident := "redirect_user"
  reads := []
  body := none
  arguments := []
  response := "RedirectUserResponse"
  arms := [
    { tag := "Redirect"
      bindings := ["redirect_user_response_redirect_headers"]
      status := .fixed 302
      headersBinding := "redirect_user_response_redirect_headers"
      headers := [⟨"Location", "location", true⟩]
      body := .empty }]
  cleansUp := false

def customPetHandler : Handler where
  method := .post
  path := "/custom-pet"
  ident := "custom_pet"
  reads := []
  body := some {
    className := "CustomPetRequest"
    required := true
    arms := [⟨.json, "custom_pet", .json⟩] }
  arguments := ["request_body"]
  response := "CustomPetResponse"
  arms := [bareArm "Ok" 200]
  cleansUp := false

/-- The handlers of the operations, in their order. -/
def handlers : List Handler :=
  [listPetsHandler, createPetHandler, showPetHandler, deletePetHandler, getAvatarHandler,
    putAvatarHandler, redirectHandler, customPetHandler]

theorem mapM_handler : metadata.operations.mapM (handler metadata.refs) = .ok handlers := by
  refine Emit.mapM_eq_ok.2 ?_
  exact .cons rfl (.cons rfl (.cons rfl (.cons rfl (.cons rfl (.cons rfl (.cons rfl
    (.cons rfl .nil)))))))

end Handlers

/-! ## What an endpoint has of its handler -/

/-- What an endpoint goes on with after the parameters: from what was read of them, and from the
header fields and the body of the request, with the store and the files. -/
abbrev Continuation :=
  List (Option Scalar) → Headers → ByteArray → Store → Workspace → Served

/-- An answer of the service is written by an arm, a failure of the service is passed on, and only
for want of a readable body is a request refused. -/
def Answers (k : Handler) (x : Served) : Prop :=
  (∃ e, k.body.isSome = true ∧ x.result = .error (.request e)) ∨
    (∃ e, x.result = .error (.service e)) ∨
    ∃ a ∈ k.arms, ∃ c : Carried, c.Fits a.headers ∧ x.result = a.run x.workspace.disk c ∧
      ∀ binding, a.body = .file binding →
        ∃ before : Cleanup.Registry, x.workspace.registry = before.removeFile c.file

/-- An endpoint goes on as a handler does that has read the parameters. -/
structure Continues (k : Handler) (f : Continuation) : Prop where
  /-- Without a body, the rest of the request does not matter. -/
  bodiless : k.body = none → ∀ vs h h' b b', f vs h b = f vs h' b'
  /-- A body of a media type that is not declared is not looked at. -/
  undeclared : ∀ d ∈ k.body, ∀ vs h b s w, (∀ a ∈ d.arms, h.contentType? ≠ some a.media.mime) →
    f vs h b s w = ⟨s, w, .error (.request .noBodyFound)⟩
  /-- Bodies that are declared but not read are refused. -/
  unsupported : ∀ d ∈ k.body, ∀ a ∈ d.arms, a.read = .xml → ∀ vs h b s w,
    h.contentType? = some a.media.mime → f vs h b s w = ⟨s, w, .error (.request .illegalBody)⟩
  /-- A multipart form is read as the handler reads it, and what was made for it is kept. -/
  multipart : ∀ d ∈ k.body, ∀ a ∈ d.arms, ∀ form, a.read = .multipart form → ∀ vs h b s w,
    h.contentType? = some a.media.mime →
      (Multipart.parts? h b = none → f vs h b s w = ⟨s, w, .error (.request .illegalBody)⟩) ∧
      ∀ parts w' e, Multipart.parts? h b = some parts → form.run parts w = (w', .error e) →
        f vs h b s w = ⟨s, w', .error (.request e.refusal)⟩
  answers : ∀ vs h b s w, Answers k (f vs h b s w)
  /-- A handler without files leaves them alone. -/
  keeps : k.cleansUp = false → ∀ vs h b s w, (f vs h b s w).workspace = w

/-- The texts that a path gives for the parameters of its template. -/
def pathTexts (petId : Option String) (name : String) : Option String :=
  if name = "petId" then petId else none

/-- An endpoint does what a handler says: it reads the parameters, stops at the first that cannot be
read, and goes on as the handler does. -/
def Serves (e : Endpoint) (k : Handler) : Prop :=
  ∃ f, Continues k f ∧ ∀ petId r s w, Server.serve e petId r s w =
    match k.readParams (pathTexts petId) r with
    | .error x => ⟨s, w, .error (.request x)⟩
    | .ok vs => f vs r.headers r.body s w

/-! ## Reading parameters -/

section Parameters

variable {petId : Option String} {r : Request}

/-- The text that was read of a parameter. -/
def textOf : Option Scalar → String
  | some (.text s) => s
  | _ => ""

/-- The number that was read of a parameter, if it was given. -/
def numberOf? : Option Scalar → Option Int
  | some (.whole n) => some n
  | _ => none

/-- A parameter that may be absent is read as a scalar. -/
theorem run_optional {α : Type} {p : ParamRead} {path : String → Option String}
    {raw : Option String} {read : String → Option α} {give : α → Scalar}
    (hraw : p.raw path r = .ok raw) (hoptional : p.required = false)
    (hread : Scalar.read? p.scalar = fun s => (read s).map give) :
    p.run path r = (Param.readOptional p.wire raw read).map fun v => v.map give := by
  rw [ParamRead.run, hraw, hoptional, hread]
  simp only [bind, Except.bind, Bool.false_eq_true, if_false, readOptional_map]

/-- A parameter that must be given is read as a scalar. -/
theorem run_required {α : Type} {p : ParamRead} {path : String → Option String}
    {raw : Option String} {read : String → Option α} {give : α → Scalar}
    (hraw : p.raw path r = .ok raw) (hrequired : p.required = true)
    (hread : Scalar.read? p.scalar = fun s => (read s).map give) :
    p.run path r = (Param.readRequired p.wire raw read).map fun a => some (give a) := by
  rw [ParamRead.run, hraw, hrequired, hread]
  simp only [bind, Except.bind, if_true, readRequired_map]
  cases Param.readRequired p.wire raw read <;> rfl

/-- One parameter is read. -/
theorem readParams_one {k : Handler} {p : ParamRead} {path : String → Option String}
    (h : k.reads = [p]) : k.readParams path r = (p.run path r).map fun v => [v] := by
  rw [Handler.readParams, h, List.mapM_cons, List.mapM_nil]
  cases p.run path r <;> rfl

/-- Two parameters are read one after the other. -/
theorem readParams_two {k : Handler} {p q : ParamRead} {path : String → Option String}
    (h : k.reads = [p, q]) : k.readParams path r =
      (p.run path r).bind fun v => (q.run path r).map fun u => [v, u] := by
  rw [Handler.readParams, h, List.mapM_cons, List.mapM_cons, List.mapM_nil]
  cases p.run path r with
  | error e => rfl
  | ok v => cases q.run path r <;> rfl

theorem run_petIdRead : petIdRead.run (pathTexts petId) r =
    (Param.readRequired "petId" petId Scalar.readText?).map fun t => some (.text t) :=
  run_required rfl rfl rfl

/-- A header field that must be given is read as a scalar. -/
theorem exists_headerRead {α : Type} (p : ParamRead) (read : String → Option α) (give : α → Scalar)
    {path : String → Option String} (hlocation : p.location = .header)
    (hrequired : p.required = true)
    (hread : Scalar.read? p.scalar = fun s => (read s).map give) :
    ∃ result : Except RequestError α, readHeader r p.wire read = result.mapError .request ∧
      p.run path r = result.map fun a => some (give a) := by
  refine ⟨do Param.readRequired p.wire (← Param.headerText r.headers p.wire) read, rfl, ?_⟩
  have hraw : p.raw path r = Param.headerText r.headers p.wire := by
    rw [ParamRead.raw, hlocation]
  cases htext : Param.headerText r.headers p.wire with
  | error e =>
      rw [ParamRead.run, hraw, htext]
      rfl
  | ok raw => exact run_required (hraw.trans htext) hrequired hread

end Parameters

/-! ## Writing responses -/

section Answers

variable {k : Handler} {s : Store} {w : Workspace}

/-- An arm without headers is run without them. -/
theorem answers_bare (tag : String) {n : Nat} (h : bareArm tag n ∈ k.arms) :
    Answers k ⟨s, w, bare n⟩ :=
  Or.inr (Or.inr ⟨_, h, {}, .nil, rfl, nofun⟩)

theorem answers_refused (h : errorArm ∈ k.arms) (p : Problem) : Answers k ⟨s, w, refused p⟩ :=
  Or.inr (Or.inr ⟨_, h, { code := p.code, value := p.json }, .nil, rfl, nofun⟩)

theorem answers_service (e : ServiceError) : Answers k ⟨s, w, .error (.service e)⟩ :=
  Or.inr (Or.inl ⟨e, rfl⟩)

theorem answers_request {e : RequestError} (h : k.body.isSome = true) :
    Answers k ⟨s, w, .error (.request e)⟩ :=
  Or.inl ⟨e, h, rfl⟩

theorem answers_json {a : DispatchArm} {n : Nat} {binding : String} (h : a ∈ k.arms)
    (hstatus : a.status = .fixed n) (hheaders : a.headers = []) (hbody : a.body = .json binding)
    (v : Json.Value) : Answers k ⟨s, w, withJson n v⟩ := by
  refine Or.inr (Or.inr ⟨a, h, { value := v }, ?_, ?_, ?_⟩)
  · rw [hheaders]
    exact .nil
  · rw [DispatchArm.run, hstatus, hheaders, hbody]
    rfl
  · rw [hbody]
    exact nofun

/-- Without a body and files, only the answers are left to be shown. -/
theorem continues_of_bodiless {g : List (Option Scalar) → Store → Workspace → Served}
    (hbody : k.body = none) (hanswers : ∀ vs s w, Answers k (g vs s w))
    (hkeeps : k.cleansUp = false → ∀ vs s w, (g vs s w).workspace = w) :
    Continues k fun vs _ _ s w => g vs s w where
  bodiless _ _ _ _ _ _ := rfl
  undeclared d hd := by simp [hbody] at hd
  unsupported d hd := by simp [hbody] at hd
  multipart d hd := by simp [hbody] at hd
  answers vs _ _ := hanswers vs
  keeps hk vs _ _ := hkeeps hk vs

end Answers

/-! ## Endpoints -/

section Endpoints

variable {s : Store} {w : Workspace}

/-- The pets are listed. -/
def list (vs : List (Option Scalar)) (s : Store) (w : Workspace) : Served :=
  ⟨s, w,
    match s.list (vs[0]?.bind numberOf?) with
    | .ok page => pageResponse page
    | .error p => refused p⟩

theorem answers_list (vs : List (Option Scalar)) (s : Store) (w : Workspace) :
    Answers listPetsHandler (list vs s w) := by
  unfold list
  cases s.list (vs[0]?.bind numberOf?) with
  | error p => exact answers_refused (List.mem_cons_of_mem _ List.mem_cons_self) p
  | ok page =>
      refine Or.inr (Or.inr ⟨_, List.mem_cons_self,
        { headers := [page.next], value := page.pets.json },
        .cons nofun .nil, ?_, nofun⟩)
      rw [DispatchArm.run_header rfl rfl]
      rfl

theorem serves_listPets : Serves .listPets listPetsHandler := by
  refine ⟨_, continues_of_bodiless rfl answers_list fun _ _ _ _ => rfl, ?_⟩
  intro petId r s w
  have hraw : ParamRead.raw (pathTexts petId) r ⟨"limit", "limit", .query, false, .int⟩ =
      .ok (r.queryParam? "limit") := rfl
  rw [readParams_one rfl, run_optional hraw rfl rfl]
  simp only [Server.serve, listPets]
  cases Param.readOptional "limit" (r.queryParam? "limit") Scalar.readInt? with
  | error e => rfl
  | ok n => cases n <;> rfl

/-- The pet is shown that the first parameter names. -/
def present (vs : List (Option Scalar)) (s : Store) (w : Workspace) : Served :=
  ⟨s, w,
    match s.find? (textOf vs[0]?.join) with
    | some p => withJson 200 p.json
    | none => refused ⟨404, "Pet not found"⟩⟩

theorem answers_present (vs : List (Option Scalar)) (s : Store) (w : Workspace) :
    Answers showPetHandler (present vs s w) := by
  unfold present
  cases s.find? (textOf vs[0]?.join) with
  | some p => exact answers_json List.mem_cons_self rfl rfl rfl p.json
  | none => exact answers_refused (List.mem_cons_of_mem _ List.mem_cons_self) _

theorem serves_showPet : Serves .showPet showPetHandler := by
  refine ⟨_, continues_of_bodiless rfl answers_present fun _ _ _ _ => rfl, ?_⟩
  intro petId r s w
  obtain ⟨version, hversion, hrun⟩ := exists_headerRead (r := r)
    ⟨"x_version", "x-version", .header, true, .int⟩ Scalar.readInt? Scalar.whole rfl rfl rfl
  rw [readParams_two rfl, run_petIdRead, hrun]
  simp only [Server.serve, showPet, readPetId, hversion]
  cases Param.readRequired "petId" petId Scalar.readText? with
  | error e => rfl
  | ok text => cases version <;> rfl

/-- The pet is deleted that the second parameter names, if the first one allows it. -/
def remove (vs : List (Option Scalar)) (s : Store) (w : Workspace) : Served :=
  Server.onStore w <|
    match s.delete (textOf vs[0]?.join) (textOf vs[1]?.join) with
    | .ok (some s) => (s, bare 204)
    | .ok none => (s, bare 404)
    | .error p => (s, refused p)

theorem answers_remove (vs : List (Option Scalar)) (s : Store) (w : Workspace) :
    Answers deletePetHandler (remove vs s w) := by
  unfold remove
  cases s.delete (textOf vs[0]?.join) (textOf vs[1]?.join) with
  | error p => exact answers_refused (by simp [deletePetHandler]) p
  | ok left =>
      cases left with
      | some left => exact answers_bare "NoContent" List.mem_cons_self
      | none => exact answers_bare "NotFound" (List.mem_cons_of_mem _ List.mem_cons_self)

theorem serves_deletePet : Serves .deletePet deletePetHandler := by
  refine ⟨_, continues_of_bodiless rfl answers_remove fun _ _ _ _ => rfl, ?_⟩
  intro petId r s w
  obtain ⟨authorization, hauthorization, hrun⟩ := exists_headerRead (r := r)
    ⟨"authorization", "Authorization", .header, true, .string⟩ Scalar.readText? Scalar.text
    rfl rfl rfl
  rw [readParams_two rfl, run_petIdRead, hrun]
  simp only [Server.serve, deletePet, readDeletion, readPetId, hauthorization]
  cases authorization with
  | error e => rfl
  | ok given => cases Param.readRequired "petId" petId Scalar.readText? <;> rfl

/-- The client is sent elsewhere. -/
def sendHome (_ : List (Option Scalar)) (s : Store) (w : Workspace) : Served :=
  ⟨s, w, redirect⟩

theorem answers_sendHome (vs : List (Option Scalar)) (s : Store) (w : Workspace) :
    Answers redirectHandler (sendHome vs s w) := by
  refine Or.inr (Or.inr ⟨_, List.mem_cons_self, { headers := [some home] },
    .cons (fun _ => rfl) .nil, ?_, nofun⟩)
  rw [DispatchArm.run_header rfl rfl]
  rfl

theorem serves_redirect : Serves .redirect redirectHandler :=
  ⟨_, continues_of_bodiless rfl answers_sendHome fun _ _ _ _ => rfl, fun _ _ _ _ => rfl⟩

/-- An avatar is handed out for the pet that the first parameter names. -/
def handOut (vs : List (Option Scalar)) (s : Store) (w : Workspace) : Served :=
  match s.avatar w.disk (textOf vs[0]?.join) with
  | (s, disk, .error e) => ⟨s, { w with disk }, .error (.service e)⟩
  | (s, disk, .ok a) => ⟨s, ⟨disk, w.registry.removeFile a.path⟩, avatarResponse disk a⟩

theorem answers_handOut (vs : List (Option Scalar)) (s : Store) (w : Workspace) :
    Answers getAvatarHandler (handOut vs s w) := by
  unfold handOut
  obtain ⟨s', disk, result⟩ := s.avatar w.disk (textOf vs[0]?.join)
  cases result with
  | error e => exact answers_service e
  | ok a =>
      refine Or.inr (Or.inr ⟨_, List.mem_cons_self, { headers := [some a.note], file := a.path },
        .cons (fun _ => rfl) .nil, ?_, fun _ _ => ⟨w.registry, rfl⟩⟩)
      rw [DispatchArm.run_header rfl rfl]
      rfl

theorem serves_getAvatar : Serves .getAvatar getAvatarHandler := by
  refine ⟨_, continues_of_bodiless rfl answers_handOut nofun, ?_⟩
  intro petId r s w
  rw [readParams_one rfl, run_petIdRead]
  simp only [Server.serve, getAvatar, readPetId]
  cases Param.readRequired "petId" petId Scalar.readText? <;> rfl

/-! ### Endpoints with a body -/

/-- A request of which nothing is known but its header fields and its body. -/
def bodyOnly (headers : Headers) (body : ByteArray) : Request where
  method := ""
  target := ""
  headers
  body

/-- A new pet is taken. -/
def take (_ : List (Option Scalar)) (h : Headers) (b : ByteArray) (s : Store) (w : Workspace) :
    Served :=
  Server.onStore w (createPet (bodyOnly h b) s)

theorem answers_take (vs : List (Option Scalar)) (h : Headers) (b : ByteArray) (s : Store)
    (w : Workspace) : Answers createPetHandler (take vs h b s w) := by
  unfold take createPet
  cases readPet (bodyOnly h b) with
  | error e => exact answers_request rfl
  | ok p =>
      dsimp only
      cases s.create p with
      | ok s => exact answers_bare "Created" List.mem_cons_self
      | error p => exact answers_refused (by simp [createPetHandler]) p

theorem continues_take : Continues createPetHandler take where
  bodiless := nofun
  undeclared d hd vs h b s w hmedia := by
    obtain rfl := Option.some.inj hd
    have hread : readPet (bodyOnly h b) = .error .noBodyFound := by
      unfold readPet
      split
      · exact absurd ‹_› (hmedia ⟨.json, "pet", .json⟩ (by simp))
      · exact absurd ‹_› (hmedia ⟨.form, "pet", .form petForm⟩ (by simp))
      · exact absurd ‹_› (hmedia ⟨.xml, "pet", .xml⟩ (by simp))
      · rfl
    rw [take, createPet, hread]
    rfl
  unsupported d hd a ha hxml vs h b s w hmedia := by
    obtain rfl := Option.some.inj hd
    obtain rfl : a = ⟨.xml, "pet", .xml⟩ := by
      simp only [List.mem_cons, List.not_mem_nil, or_false] at ha
      rcases ha with rfl | rfl | rfl
      · cases hxml
      · cases hxml
      · rfl
    have hread : readPet (bodyOnly h b) = .error .illegalBody := by
      have htype : (bodyOnly h b).headers.contentType? = some "application/xml" := hmedia
      rw [readPet, htype]
      rfl
    rw [take, createPet, hread]
    rfl
  multipart d hd a ha form hform := by
    obtain rfl := Option.some.inj hd
    simp only [List.mem_cons, List.not_mem_nil, or_false] at ha
    rcases ha with rfl | rfl | rfl <;> cases hform
  answers := answers_take
  keeps _ _ _ _ _ _ := rfl

theorem serves_createPet : Serves .createPet createPetHandler :=
  ⟨take, continues_take, fun _ _ _ _ => rfl⟩

/-- A pet is taken that is known by two lists. -/
def takeCustom (_ : List (Option Scalar)) (h : Headers) (b : ByteArray) (s : Store)
    (w : Workspace) : Served :=
  Server.onStore w (takeCustomPet (bodyOnly h b) s)

theorem continues_takeCustom : Continues customPetHandler takeCustom where
  bodiless := nofun
  undeclared d hd vs h b s w hmedia := by
    obtain rfl := Option.some.inj hd
    have hread : readCustomPet (bodyOnly h b) = .error .noBodyFound := by
      unfold readCustomPet
      split
      · exact absurd ‹_› (hmedia ⟨.json, "custom_pet", .json⟩ (by simp))
      · rfl
    rw [takeCustom, takeCustomPet, hread]
    rfl
  unsupported d hd a ha hxml := by
    obtain rfl := Option.some.inj hd
    obtain rfl := List.mem_singleton.1 ha
    cases hxml
  multipart d hd a ha form hform := by
    obtain rfl := Option.some.inj hd
    obtain rfl := List.mem_singleton.1 ha
    cases hform
  answers vs h b s w := by
    unfold takeCustom takeCustomPet
    cases readCustomPet (bodyOnly h b) with
    | error e => exact answers_request rfl
    | ok p => exact answers_bare "Ok" List.mem_cons_self
  keeps _ _ _ _ _ _ := rfl

theorem serves_customPet : Serves .customPet customPetHandler :=
  ⟨takeCustom, continues_takeCustom, fun _ _ _ _ => rfl⟩

/-- An avatar is taken for the pet that the first parameter names. -/
def receive (vs : List (Option Scalar)) (h : Headers) (b : ByteArray) (s : Store) (w : Workspace) :
    Served :=
  match readAvatar (bodyOnly h b) w with
  | (w, .error e) => ⟨s, w, .error (.request e)⟩
  | (w, .ok (photo, description)) =>
    match s.receive w.disk (textOf vs[0]?.join) photo description with
    | (s, .ok ()) => ⟨s, w, bare 200⟩
    | (s, .error e) => ⟨s, w, .error (.service e)⟩

theorem answers_receive (vs : List (Option Scalar)) (h : Headers) (b : ByteArray) (s : Store)
    (w : Workspace) : Answers putAvatarHandler (receive vs h b s w) := by
  unfold receive
  obtain ⟨w', result⟩ := readAvatar (bodyOnly h b) w
  cases result with
  | error e => exact answers_request rfl
  | ok given =>
      obtain ⟨photo, description⟩ := given
      dsimp only
      obtain ⟨s', stored⟩ := s.receive w'.disk (textOf vs[0]?.join) photo description
      cases stored with
      | error e => exact answers_service e
      | ok _ => exact answers_bare "Ok" List.mem_cons_self

theorem continues_receive : Continues putAvatarHandler receive where
  bodiless := nofun
  undeclared d hd vs h b s w hmedia := by
    obtain rfl := Option.some.inj hd
    have hread : readAvatar (bodyOnly h b) w = (w, .error .noBodyFound) := by
      unfold readAvatar
      split
      · exact absurd ‹_› (hmedia ⟨.multipart, "avatar_upload", .multipart avatarForm⟩ (by simp))
      · rfl
    rw [receive, hread]
  unsupported d hd a ha hxml := by
    obtain rfl := Option.some.inj hd
    obtain rfl := List.mem_singleton.1 ha
    cases hxml
  multipart d hd a ha form hform vs h b s w hmedia := by
    obtain rfl := Option.some.inj hd
    obtain rfl := List.mem_singleton.1 ha
    obtain rfl := BodyRead.multipart.inj hform
    have htype : h.contentType? = some "multipart/form-data" := hmedia
    refine ⟨fun hparts => ?_, fun parts w' e hparts hrun => ?_⟩
    · have hread : readAvatar (bodyOnly h b) w = (w, .error .illegalBody) := by
        simp only [readAvatar, bodyOnly, htype, hparts]
      rw [receive, hread]
    · have hform : readAvatarForm parts w = (w', .error e) := by
        rw [Emit.run_avatarForm] at hrun
        rcases hread : readAvatarForm parts w with ⟨w₁, x | v⟩
        · rw [hread] at hrun
          obtain ⟨rfl, hx⟩ := Prod.mk.inj hrun
          rw [Except.error.inj hx]
        · rw [hread] at hrun
          cases (Prod.mk.inj hrun).2
      have hread : readAvatar (bodyOnly h b) w = (w', .error e.refusal) := by
        simp only [readAvatar, bodyOnly, htype, hparts, hform]
        rfl
      rw [receive, hread]
  answers := answers_receive
  keeps := nofun

theorem serves_putAvatar : Serves .putAvatar putAvatarHandler := by
  refine ⟨receive, continues_receive, ?_⟩
  intro petId r s w
  rw [readParams_one rfl, run_petIdRead]
  simp only [Server.serve, putAvatar, readPetId]
  cases Param.readRequired "petId" petId Scalar.readText? <;> rfl

end Endpoints

/-- Every endpoint stands where the handler of an operation of the contract is routed to, and does
what it says. -/
theorem handlers_serve :
    ∃ m ks, contract.resolve "Petstore" = .ok (m, []) ∧
      m.operations.mapM (handler m.refs) = .ok ks ∧
      List.Forall₂ (fun (path, method, e) k =>
        k.path = path ∧ k.method.upperName = method ∧ Serves e k) endpoints ks := by
  refine ⟨metadata, handlers, resolve_contract, mapM_handler, ?_⟩
  refine .cons ⟨rfl, rfl, serves_listPets⟩ (.cons ⟨rfl, rfl, serves_createPet⟩ ?_)
  refine .cons ⟨rfl, rfl, serves_showPet⟩ (.cons ⟨rfl, rfl, serves_deletePet⟩ ?_)
  refine .cons ⟨rfl, rfl, serves_getAvatar⟩ (.cons ⟨rfl, rfl, serves_putAvatar⟩ ?_)
  exact .cons ⟨rfl, rfl, serves_redirect⟩ (.cons ⟨rfl, rfl, serves_customPet⟩ .nil)

end PetStore
end ApiContract
