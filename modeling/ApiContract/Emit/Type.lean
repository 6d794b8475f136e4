import ApiContract.Code.Token
import ApiContract.Emit.Names

/-!
# Types in generated code

**Input:** a descriptor and the table of named schemas.

**Results:** the type that generated code gives to its values (`typeOf`), with pointers followed and
unnamed arrays turned into lists.  A field is boxed where it closes a cycle of schemas and optional
where its property is not required (`fieldType`).  `CodeType.code` prints a type for one of the two
places from which models are named.
-/

namespace ApiContract
namespace Emit

/-- A type of generated code. -/
inductive CodeType
  | scalar (p : Primitive)
  /-- A generated model. -/
  | model (name : String)
  /-- The path of a file. -/
  | file
  /-- A map from texts to arbitrary JSON values. -/
  | dynamicMap
  | list (element : CodeType)
  | boxed (inner : CodeType)
  | optional (inner : CodeType)
deriving DecidableEq, Inhabited

/-- The models that a type is made of. -/
def CodeType.models : CodeType → List String
  | .model name => [name]
  | .list t => t.models
  | .boxed t => t.models
  | .optional t => t.models
  | _ => []

/-- Where code stands that names a model. -/
inductive Scope
  /-- Among the models. -/
  | models
  /-- Beside the module of models. -/
  | sibling
deriving DecidableEq, Inhabited

/-- The model of received files. -/
def uploadModel : String :=
  "FileUpload"

/-- The type of a scalar. -/
def primitiveType : Primitive → String
  | .int => "i32"
  | .int64 => "i64"
  | .float => "f64"
  | .string => "String"
  | .boolean => "bool"

/-- The function that reads a scalar from a text. -/
def scalarReader : Primitive → String
  | .int => "::bindery::parse_int"
  | .int64 => "::bindery::parse_long"
  | .float => "::bindery::parse_float"
  | .string => "::bindery::parse_string"
  | .boolean => "::bindery::parse_bool_strict"

/-- The path of a model. -/
def modelPath (scope : Scope) (name : String) : Code :=
  match scope with
  | .models => Code.flat "super::" ++ Code.word name
  | .sibling => Code.flat "models::" ++ Code.word name

/-- The code of a type. -/
def CodeType.code (scope : Scope) : CodeType → Code
  | .scalar p => Code.flat (primitiveType p)
  | .model name => modelPath scope name
  | .file => Code.flat "::std::path::PathBuf"
  | .dynamicMap => Code.flat "::std::collections::HashMap<String, ::serde_json::Value>"
  | .list t => Code.flat "Vec" ++ Code.angles (t.code scope)
  | .boxed t => Code.flat "Box" ++ Code.angles (t.code scope)
  | .optional t => Code.flat "Option" ++ Code.angles (t.code scope)

/-! ## From descriptors -/

/-- Follows pointers to the descriptor behind them. -/
def target (refs : RefTable) (t : Descriptor) : Emitting Descriptor :=
  match refs.resolve? t with
  | some t => .ok t
  | none => .error (.unresolvable t)

/-- The type of a descriptor, following pointers at most `hops` times. -/
def typeWithin (refs : RefTable) (hops : Nat) (t : Descriptor) : Emitting CodeType :=
  match t with
  | .primitive p => .ok (.scalar p)
  | .fileUpload => .ok (.model uploadModel)
  | .file => .ok .file
  | .array (some name) _ => .ok (.model name)
  | .object (some name) _ => .ok (.model name)
  | .oneOf name _ => .ok (.model name)
  | .array none e => (typeWithin refs hops e).map .list
  | .object none ps => if ps.isEmpty then .ok .dynamicMap else .error .namelessRecord
  | .ref pointer =>
    match hops with
    | 0 => .error (.unresolvable (.ref pointer))
    | hops + 1 =>
      match target refs (.ref pointer) with
      | .ok u => typeWithin refs hops u
      | .error e => .error e
termination_by (hops, sizeOf t)

/-- The type of a descriptor.  Following more pointers than the table has entries means going in
circles. -/
def typeOf (refs : RefTable) (t : Descriptor) : Emitting CodeType :=
  typeWithin refs (refs.size + 1) t

/-- Whether a descriptor is a pointer that closes a cycle. -/
def closesCycle (refs : RefTable) : Descriptor → Bool
  | .ref pointer => refs.isRecursive pointer
  | _ => false

/-- The type of a record field. -/
def fieldType (refs : RefTable) (p : Property) : Emitting CodeType := do
  let t ← typeOf refs p.type
  let t := if closesCycle refs p.type then .boxed t else t
  return if p.required then t else .optional t

/-! ## Members -/

/-- The name by which a variant knows what it carries. -/
def memberName : Descriptor → String
  | .ref pointer => Naming.simpleName pointer
  | .file => "file"
  | .fileUpload => "file"
  | t => t.name?.getD "body"

/-- The identifier by which a variant knows what it carries. -/
def memberIdent (t : Descriptor) : String :=
  Naming.fieldIdent (memberName t)

/-! ## Forms -/

/-- The record behind a form body: its name and properties. -/
def formRecord (refs : RefTable) (t : Descriptor) : Emitting (String × List Property) := do
  match ← target refs t with
  | .object (some name) (p :: ps) => return (name, p :: ps)
  | other => throw (.formNotRecord other)

end Emit
end ApiContract
