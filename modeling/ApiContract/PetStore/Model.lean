import ApiContract.Node.Basic
import ApiContract.Service.BodyError
import ApiContract.Service.Scalar

/-!
# Pets and what is said of them

The records that the clients of a pet store send and receive.

**Results:** the JSON form of each record, and its reader; a pet may also be read from a form.
-/

namespace ApiContract
namespace PetStore

open Node (field defaulted given? ifGiven?)

/-- A pet. -/
structure Pet where
  id : Int
  name : String
  tag : Option String := none
deriving DecidableEq, Inhabited

/-- Several pets in their order. -/
structure Pets where
  pets : List Pet
deriving DecidableEq, Inhabited

/-- Why a wish is not granted, with the status of the answer. -/
structure Problem where
  code : Int
  message : String
deriving DecidableEq, Inhabited

/-- A pet that is known by two lists. -/
structure CustomPet where
  ints : List Int
  strings : List String
deriving DecidableEq, Inhabited

/-! ## Writing -/

/-- A pet as JSON; a tag that it has not is not written. -/
def Pet.json (p : Pet) : Json.Value :=
  .record ([("id", .ofInt p.id), ("name", .text p.name)] ++
    (p.tag.map fun tag => ("tag", Json.Value.text tag)).toList)

/-- Pets as JSON. -/
def Pets.json (ps : Pets) : Json.Value :=
  .record [("pets", .list (ps.pets.map Pet.json))]

/-- A problem as JSON. -/
def Problem.json (p : Problem) : Json.Value :=
  .record [("code", .ofInt p.code), ("message", .text p.message)]

/-- A pet that is known by two lists, as JSON. -/
def CustomPet.json (p : CustomPet) : Json.Value :=
  .record [("ints", .list (p.ints.map Json.Value.ofInt)),
    ("strings", .list (p.strings.map Json.Value.text))]

/-! ## Reading -/

/-- Reads a pet, within `room` levels. -/
def Pet.ofNode? (room : Nat) (n : Node) : Option Pet := do
  let [id, name, tag] ← n.fields? room [field "id", field "name", defaulted "tag"] | none
  return {
    id := ← given? (Node.signed? 64) id
    name := ← given? Node.text? name
    tag := ← ifGiven? Node.text? tag }

/-- Reads pets. -/
def Pets.ofNode? (room : Nat) (n : Node) : Option Pets := do
  let [pets] ← n.fields? room [field "pets"] | none
  return { pets := ← given? (Node.list? (room - 1) (Pet.ofNode? (room - 2))) pets }

/-- Reads a problem. -/
def Problem.ofNode? (room : Nat) (n : Node) : Option Problem := do
  let [code, message] ← n.fields? room [field "code", field "message"] | none
  return {
    code := ← given? (Node.signed? 32) code
    message := ← given? Node.text? message }

/-- Reads a pet that is known by two lists. -/
def CustomPet.ofNode? (room : Nat) (n : Node) : Option CustomPet := do
  let [ints, strings] ← n.fields? room [field "ints", field "strings"] | none
  return {
    ints := ← given? (Node.list? (room - 1) (Node.signed? 32)) ints
    strings := ← given? (Node.list? (room - 1) Node.text?) strings }

/-- Reads a pet from the fields of a form. -/
def Pet.ofForm (f : Form) : Except BodyError Pet := do
  let id ← f.required "id" Scalar.readLong?
  let name ← f.required "name" Scalar.readText?
  let tag ← f.optional "tag" Scalar.readText?
  return { id, name, tag }

end PetStore
end ApiContract
