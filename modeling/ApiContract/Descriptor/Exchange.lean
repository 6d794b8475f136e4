import ApiContract.Descriptor
import ApiContract.Node.Basic

/-!
# Descriptors as JSON

One of several forms is written as its name, or as a record with its name and what it carries.  A
record with known fields is written with all of them in their order, and may be read from a list of
their values.

**Results:** `Descriptor.json` and `Property.json` write, `Descriptor.ofNode?` and
`Property.ofNode?` read; `room` is the number of levels of lists and records that may still be
entered.
-/

namespace ApiContract

open Node (field given? ifGiven?)

namespace Node

/-- Reads the name of a form and what it carries, if it is written with that. -/
def form? (room : Nat) : Node → Option (String × Option Node)
  | .text (some s) => some (s, none)
  | .record [(.text (some s), n)] => if room = 0 then none else some (s, some n)
  | _ => none

/-- Reads the name of a form that carries nothing. -/
def bareForm? {α : Type} (ofName? : String → Option α) (room : Nat) (n : Node) : Option α :=
  match n.form? room with
  | some (s, none) => ofName? s
  | some (s, some .null) => ofName? s
  | _ => none

end Node

namespace Json.Value

/-- A form that carries something. -/
def form (name : String) (v : Value) : Value :=
  .record [(name, v)]

end Json.Value

/-! ## Writing -/

mutual

/-- A descriptor as JSON. -/
def Descriptor.json : Descriptor → Json.Value
  | .primitive p => .form "Primitive" (.text p.name)
  | .fileUpload => .text "FileUpload"
  | .file => .text "File"
  | .array name e => .form "Array" (.record [("name", .ofText? name), ("element", e.json)])
  | .object name ps =>
    .form "Object" (.record [("name", .ofText? name), ("properties", .list (propertiesJson ps))])
  | .oneOf name vs =>
    .form "OneOf" (.record [("name", .text name), ("variants", .record (variantsJson vs))])
  | .ref pointer => .form "RefType" (.record [("pointer", .text pointer)])

/-- Properties as JSON. -/
def propertiesJson : List (PropertyOf Descriptor) → List Json.Value
  | [] => []
  | ⟨name, type, format, required⟩ :: ps =>
    .record [("name", .text name), ("ty", type.json), ("format", .ofText? format),
      ("required", .flag required)] :: propertiesJson ps

/-- Variants as JSON. -/
def variantsJson : List (String × List Descriptor) → List (String × Json.Value)
  | [] => []
  | (tag, ms) :: vs => (tag, .list (membersJson ms)) :: variantsJson vs

/-- Members as JSON. -/
def membersJson : List Descriptor → List Json.Value
  | [] => []
  | m :: ms => m.json :: membersJson ms

end

/-- A property as JSON. -/
def Property.json (p : Property) : Json.Value :=
  .record [("name", .text p.name), ("ty", p.type.json), ("format", .ofText? p.format),
    ("required", .flag p.required)]

/-! ## Reading -/

/-- Reads a property, given how its type is read. -/
def Property.ofNodeWith? (room : Nat) (type? : Node → Option Descriptor) (n : Node) :
    Option Property := do
  let [name, type, format, required] ←
    n.fields? room [field "name", field "ty", field "format", field "required"] | none
  return {
    name := ← given? Node.text? name
    type := ← given? type? type
    format := ← ifGiven? Node.text? format
    required := ← given? Node.flag? required }

/-- Reads a descriptor. -/
def Descriptor.ofNode? : Nat → Node → Option Descriptor
  | 0, n =>
    match n.form? 0 with
    | some ("FileUpload", none) => some .fileUpload
    | some ("File", none) => some .file
    | _ => none
  | room + 1, n =>
    let inField : Node → Option Descriptor :=
      match room with
      | room + 1 => Descriptor.ofNode? room
      | _ => fun _ => none
    let inItems : Node → Option Descriptor :=
      match room with
      | room + 3 => Descriptor.ofNode? room
      | _ => fun _ => none
    match n.form? (room + 1) with
    | some ("FileUpload", none) => some .fileUpload
    | some ("FileUpload", some .null) => some .fileUpload
    | some ("File", none) => some .file
    | some ("File", some .null) => some .file
    | some ("Primitive", some n) => (Node.bareForm? Primitive.ofName? room n).map .primitive
    | some ("Array", some n) => do
      let [name, element] ← n.fields? room [field "name", field "element"] | none
      return .array (← ifGiven? Node.text? name) (← given? inField element)
    | some ("Object", some n) => do
      let [name, properties] ← n.fields? room [field "name", field "properties"] | none
      return .object (← ifGiven? Node.text? name)
        (← given? (Node.list? (room - 1) (Property.ofNodeWith? (room - 2) inItems)) properties)
    | some ("OneOf", some n) => do
      let [name, variants] ← n.fields? room [field "name", field "variants"] | none
      return .oneOf (← given? Node.text? name)
        (← given? (Node.map? (room - 1) some (Node.list? (room - 2) inItems)) variants)
    | some ("RefType", some n) => do
      let [pointer] ← n.fields? room [field "pointer"] | none
      return .ref (← given? Node.text? pointer)
    | _ => none

/-- Reads a property. -/
def Property.ofNode? (room : Nat) (n : Node) : Option Property :=
  Property.ofNodeWith? room (Descriptor.ofNode? (room - 1)) n

end ApiContract
