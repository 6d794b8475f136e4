import ApiContract.PetStore.Store
import ApiContract.Service.Body
import ApiContract.Service.Params
import ApiContract.Service.ResponseWriter

/-!
# Serving the wishes of a client

**Input:** a request, the id of a pet if the path has one, and a store.

**Results:** for each operation, what is left of the store and of its files, and the response or why
there is none.  Parameters are read before the body, the body before the store is asked, and text
fields before files.
-/

namespace ApiContract
namespace PetStore

/-- What a handler leaves: the store, the files with what is to be done about them, and the
response. -/
structure Served where
  store : Store
  workspace : Workspace
  result : Except HandlerError Response

/-! ## Responses -/

/-- A response without a body. -/
def bare (code : Int) : Except HandlerError Response := do
  return (← ResponseWriter.ofCode code).empty

/-- A response with a JSON value. -/
def withJson (code : Int) (v : Json.Value) : Except HandlerError Response := do
  (← ResponseWriter.ofCode code).json (some v)

/-- The response to a wish that is not granted. -/
def refused (p : Problem) : Except HandlerError Response :=
  withJson p.code p.json

/-- The response with pets. -/
def pageResponse (page : Store.Page) : Except HandlerError Response := do
  let w ← ResponseWriter.ofCode 200
  (← w.headerIfGiven "x-next" page.next).json (some page.pets.json)

/-- The response with a file. -/
def avatarResponse (d : Disk) (a : Store.Avatar) : Except HandlerError Response := do
  let w ← ResponseWriter.ofCode 200
  (← w.header "x-avatar-note" a.note).file d a.path

/-! ## Parameters and bodies -/

/-- The id of a pet, as the path gives it. -/
def readPetId (petId : Option String) : Except HandlerError String :=
  (Param.readRequired "petId" petId Scalar.readText?).mapError .request

/-- A header field that must be given. -/
def readHeader {α : Type} (r : Request) (name : String) (read : String → Option α) :
    Except HandlerError α :=
  (do Param.readRequired name (← Param.headerText r.headers name) read).mapError .request

/-- The body that a media type calls for, or the refusal of a request without one. -/
def bodyOf {α : Type} (r : Except BodyError α) : Except RequestError α :=
  r.mapError BodyError.refusal

/-- The pet in a body. -/
def readPet (r : Request) : Except RequestError Pet :=
  match r.headers.contentType? with
  | some "application/json" => bodyOf (Body.json Pet.ofNode? r.body)
  | some "application/x-www-form-urlencoded" => bodyOf ((Body.form r.body).bind Pet.ofForm)
  | some "application/xml" => bodyOf (Body.unsupported "application/xml")
  | _ => .error .noBodyFound

/-- The pet known by two lists in a body. -/
def readCustomPet (r : Request) : Except RequestError CustomPet :=
  match r.headers.contentType? with
  | some "application/json" => bodyOf (Body.json CustomPet.ofNode? r.body)
  | _ => .error .noBodyFound

/-- The photo and the description in a multipart form. -/
def readAvatarForm (f : MultipartForm) (w : Workspace) :
    Workspace × Except BodyError (UploadedFile × String) :=
  match f.required "description" Scalar.readText? with
  | .error e => (w, .error e)
  | .ok description =>
    match f.requiredFile "photo" w with
    | (w, .error e) => (w, .error e)
    | (w, .ok photo) => (w, .ok (photo, description))

/-- The photo and the description in a body. -/
def readAvatar (r : Request) (w : Workspace) :
    Workspace × Except RequestError (UploadedFile × String) :=
  match r.headers.contentType? with
  | some "multipart/form-data" =>
    match Multipart.parts? r.headers r.body with
    | none => (w, .error .illegalBody)
    | some parts =>
      let (w, read) := readAvatarForm parts w
      (w, bodyOf read)
  | _ => (w, .error .noBodyFound)

/-! ## Operations -/

/-- Lists pets. -/
def listPets (r : Request) (s : Store) : Except HandlerError Response := do
  let limit ← (Param.readOptional "limit" (r.queryParam? "limit") Scalar.readInt?).mapError .request
  match s.list limit with
  | .ok page => pageResponse page
  | .error p => refused p

/-- Shows a pet. -/
def showPet (r : Request) (petId : Option String) (s : Store) : Except HandlerError Response := do
  let petId ← readPetId petId
  let _ ← readHeader r "x-version" Scalar.readInt?
  match s.find? petId with
  | some p => withJson 200 p.json
  | none => refused ⟨404, "Pet not found"⟩

/-- Takes a new pet. -/
def createPet (r : Request) (s : Store) : Store × Except HandlerError Response :=
  match readPet r with
  | .error e => (s, .error (.request e))
  | .ok p =>
    match s.create p with
    | .ok s => (s, bare 201)
    | .error p => (s, refused p)

/-- The two parameters of a deletion. -/
def readDeletion (r : Request) (petId : Option String) : Except HandlerError (String × String) := do
  let authorization ← readHeader r "Authorization" Scalar.readText?
  return (authorization, ← readPetId petId)

/-- Deletes a pet. -/
def deletePet (r : Request) (petId : Option String) (s : Store) :
    Store × Except HandlerError Response :=
  match readDeletion r petId with
  | .error e => (s, .error e)
  | .ok (authorization, petId) =>
    match s.delete authorization petId with
    | .ok (some s) => (s, bare 204)
    | .ok none => (s, bare 404)
    | .error p => (s, refused p)

/-- Hands out an avatar, whose file is to be removed afterwards. -/
def getAvatar (petId : Option String) (s : Store) (w : Workspace) : Served :=
  match readPetId petId with
  | .error e => ⟨s, w, .error e⟩
  | .ok petId =>
    match s.avatar w.disk petId with
    | (s, disk, .error e) => ⟨s, { w with disk }, .error (.service e)⟩
    | (s, disk, .ok a) => ⟨s, ⟨disk, w.registry.removeFile a.path⟩, avatarResponse disk a⟩

/-- Takes an avatar. -/
def putAvatar (r : Request) (petId : Option String) (s : Store) (w : Workspace) : Served :=
  match readPetId petId with
  | .error e => ⟨s, w, .error e⟩
  | .ok petId =>
    match readAvatar r w with
    | (w, .error e) => ⟨s, w, .error (.request e)⟩
    | (w, .ok (photo, description)) =>
      match s.receive w.disk petId photo description with
      | (s, .ok ()) => ⟨s, w, bare 200⟩
      | (s, .error e) => ⟨s, w, .error (.service e)⟩

/-- Where clients are sent that ask for it. -/
def home : String :=
  "https://google.com"

/-- Sends the client elsewhere. -/
def redirect : Except HandlerError Response := do
  let w ← ResponseWriter.ofCode 302
  return (← w.header "Location" home).empty

/-- Takes a pet that is known by two lists. -/
def takeCustomPet (r : Request) (s : Store) : Store × Except HandlerError Response :=
  match readCustomPet r with
  | .error e => (s, .error (.request e))
  | .ok p => (s.takeCustom p, bare 200)

end PetStore
end ApiContract
