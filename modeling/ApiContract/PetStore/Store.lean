import ApiContract.PetStore.Model
import ApiContract.Service.HandlerError
import ApiContract.Service.Multipart
import ApiContract.Text.Blank

/-!
# A pet store

The pets of a store, and what it remembers of files that it received and handed out.

**Results:** `list`, `create`, `find?` and `delete` grant wishes or say why not; `avatar` hands out
a file, and `receive` takes one.  Pets are kept in ascending order of their ids, and no two have the
same.
-/

namespace ApiContract
namespace PetStore

/-- A file that a store received. -/
structure Upload where
  petId : String
  /-- Where the file was stored. -/
  path : FilePath
  bytes : ByteArray
  description : String
deriving DecidableEq, Inhabited

/-- A pet store. -/
structure Store where
  /-- The pets, in ascending order of their ids. -/
  pets : List Pet := []
  /-- The files that were received, in order. -/
  uploads : List Upload := []
  /-- The files that were handed out, in order. -/
  served : List FilePath := []
  /-- The pets known by two lists, in order of arrival. -/
  customPets : List CustomPet := []
deriving DecidableEq, Inhabited

namespace Store

/-- The store at the beginning. -/
def initial : Store :=
  { pets := [⟨1, "Cat", some "orange"⟩, ⟨2, "Dog", some "black"⟩] }

/-! ## Pets -/

/-- The pet with an id. -/
def pet? (s : Store) (id : Int) : Option Pet :=
  s.pets.find? (·.id == id)

/-- Pets with one more, before the first that has a greater id. -/
def insertPet (p : Pet) : List Pet → List Pet
  | [] => [p]
  | q :: qs => if p.id < q.id then p :: q :: qs else q :: insertPet p qs

/-- What a store lists: some of its pets, and where more can be found. -/
structure Page where
  pets : Pets
  next : Option String
deriving DecidableEq, Inhabited

/-- Lists pets, at most as many as a limit says. -/
def list (s : Store) (limit : Option Int) : Except Problem Page :=
  if limit.any (· ≤ 0) then .error ⟨400, "Limit <= 0"⟩
  else
    let size := (limit.map Int.toNat).getD s.pets.length
    .ok {
      pets := ⟨s.pets.take size⟩
      next := if size < s.pets.length then some s!"/pets?offset={size}" else none }

/-- Takes a new pet, which needs a name and an id of its own. -/
def create (s : Store) (p : Pet) : Except Problem Store :=
  if (Text.trim p.name.toList).isEmpty then .error ⟨422, "A pet needs a name"⟩
  else if (s.pet? p.id).isSome then .error ⟨409, "Pet already exists"⟩
  else .ok { s with pets := insertPet p s.pets }

/-- The pet that a text names. -/
def find? (s : Store) (petId : String) : Option Pet :=
  (Scalar.readLong? petId).bind s.pet?

/-- What lets a client delete pets. -/
def bearer : String :=
  "Bearer secret"

/-- Deletes the pet that a text names; `none` if there is no such pet. -/
def delete (s : Store) (authorization petId : String) : Except Problem (Option Store) :=
  if authorization ≠ bearer then .error ⟨401, "Unauthorized"⟩
  else .ok ((s.find? petId).map fun p => { s with pets := s.pets.filter (·.id ≠ p.id) })

/-- Takes a pet that is known by two lists. -/
def takeCustom (s : Store) (p : CustomPet) : Store :=
  { s with customPets := s.customPets ++ [p] }

/-! ## Files -/

/-- The content of every avatar. -/
def avatarBytes : ByteArray :=
  ⟨#[1, 2, 3]⟩

/-- A file that is handed out. -/
structure Avatar where
  path : FilePath
  note : String
deriving DecidableEq, Inhabited

/-- The note on an avatar.  One pet has a note that cannot be sent. -/
def noteOf (petId : String) : String :=
  if petId = "unsendable" then "first line\nsecond line" else "avatar of pet " ++ petId

/-- Hands out an avatar in a new file. -/
def avatar (s : Store) (d : Disk) (petId : String) :
    Store × Disk × Except ServiceError Avatar :=
  match d.makeTemporary ("avatar-" ++ petId ++ "-") ".bin" with
  | .error fault => (s, d, .error (.ofIo fault.message))
  | .ok (d, path) =>
    match d.write path avatarBytes with
    | .error fault => (s, d, .error (.ofIo fault.message))
    | .ok d => ({ s with served := s.served ++ [path] }, d, .ok { path, note := noteOf petId })

/-- Takes an avatar.  One description stands for a failure after the file was received. -/
def receive (s : Store) (d : Disk) (petId : String) (photo : UploadedFile) (description : String) :
    Store × Except ServiceError Unit :=
  match d.read photo.path with
  | .error fault => (s, .error (.ofIo fault.message))
  | .ok bytes =>
    ({ s with uploads := s.uploads ++ [{ petId, path := photo.path, bytes, description }] },
      if description = "fail" then .error { message := "avatar storage failed" } else .ok ())

end Store
end PetStore
end ApiContract
