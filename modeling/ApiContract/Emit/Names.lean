import ApiContract.Emit.Error
import ApiContract.Naming
import ApiContract.Operation

/-!
# Check of names

Before code is generated, the prefix and every type and variant name must be usable as identifiers.
`checkNames` goes through the table, then through the sums of each operation, and reports the first
name that is not.
-/

namespace ApiContract
namespace Emit

/-- Checks a name of the given kind. -/
def checkName (kind name : String) : Emitting Unit :=
  if Naming.isTypeIdent name then .ok () else .error (.notIdentifier kind name)

/-- Checks a type name that may be absent. -/
def checkTypeName? : Option String → Emitting Unit
  | some name => checkName "type" name
  | none => .ok ()

mutual

/-- Checks the names inside a descriptor. -/
def checkTypeNames : Descriptor → Emitting Unit
  | .array name e => do
    checkTypeName? name
    checkTypeNames e
  | .object name ps => do
    checkTypeName? name
    checkProperties ps
  | .oneOf name vs => do
    checkName "type" name
    checkVariants vs
  | _ => .ok ()

/-- Checks the names inside properties. -/
def checkProperties : List (PropertyOf Descriptor) → Emitting Unit
  | [] => .ok ()
  | ⟨_, t, _, _⟩ :: ps => do
    checkTypeNames t
    checkProperties ps

/-- Checks variant names and the names inside variants. -/
def checkVariants : List (String × List Descriptor) → Emitting Unit
  | [] => .ok ()
  | (tag, ms) :: vs => do
    checkName "variant" tag
    checkMembers ms
    checkVariants vs

/-- Checks the names inside members. -/
def checkMembers : List Descriptor → Emitting Unit
  | [] => .ok ()
  | m :: ms => do
    checkTypeNames m
    checkMembers ms

end

/-- The sums that an operation adds to the table: its responses, then its request body. -/
def sumsOf (o : Operation) : List Descriptor :=
  o.responseBody.sum :: (o.requestBody.map RequestBody.sum).toList

/-- Every descriptor that code is generated from, in the order in which it is visited. -/
def roots (m : Metadata) : List Descriptor :=
  m.refs.entries.map Prod.snd ++ m.operations.flatMap sumsOf

/-- Checks all names of resolved metadata. -/
def checkNames (m : Metadata) : Emitting Unit := do
  checkName "name prefix" m.namePrefix
  (roots m).forM checkTypeNames

end Emit
end ApiContract
