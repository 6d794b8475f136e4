import ApiContract.Resolve.Progress

/-!
# Resolution of schemas

**Input:** a document, the path of pointers that are being resolved, and a schema in place with a
context that names inline objects.

**Results:** the descriptor of the schema; on the way every pointer met for the first time is
expanded and gets its entry in the table.  A pointer met again on its own path is marked as
recursive and stays a pointer.
-/

namespace ApiContract
namespace Resolve

open Document (Schema)

/-- The scalar type, or received file, that a schema's keywords name. -/
def scalarOf? (s : Schema) : Option Descriptor :=
  if s.type = some "integer" then
    some (.primitive (if s.format = some "int64" then .int64 else .int))
  else if s.type = some "number" then some (.primitive .float)
  else if s.type = some "string" then
    some (if s.isBinary then .fileUpload else .primitive .string)
  else if s.type = some "boolean" then some (.primitive .boolean)
  else none

/-- Whether a schema describes an object. -/
def isObject (s : Schema) : Bool :=
  s.type == some "object" || s.type.isNone

theorem sizeOf_pos (s : Schema) : 0 < sizeOf s := by
  cases s
  simp only [Schema.mk.sizeOf_spec]
  omega

theorem sizeOf_items_lt {s it : Schema} (h : s.items = some it) : sizeOf it < sizeOf s := by
  cases s
  simp at h
  subst h
  simp only [Schema.mk.sizeOf_spec, Option.some.sizeOf_spec]
  omega

theorem sizeOf_properties_lt (s : Schema) : sizeOf s.properties < sizeOf s := by
  cases s
  simp only [Schema.mk.sizeOf_spec]
  omega

/-- A record from its properties.  Inline objects with properties are named after their context;
inline objects without properties stay anonymous maps. -/
def record (name? : Option String) (context : String) (properties : List Property) : Descriptor :=
  .object (name?.or (if properties.isEmpty then none else some context)) properties

mutual

/-- Resolves a schema in place. -/
def typeOf (d : Document) (path : List String) (s : Schema) (context : String) :
    Resolving Descriptor :=
  match s.ref with
  | some pointer => reference d path pointer
  | none =>
    if s.isComposition then refuse (.unsupportedComposition context)
    else
      match scalarOf? s with
      | some t => pure t
      | none =>
        if s.type = some "array" then arrayOf d path none s context
        else if isObject s then do
          return record none context (← propertiesOf d path s.required context s.properties)
        else refuse (.unsupportedType (s.type.getD "") context)
termination_by (unentered d path, sizeOf s, 1)
decreasing_by
  · exact Prod.Lex.right _ (Prod.Lex.left _ _ (sizeOf_pos s))
  · exact Prod.Lex.right _ (Prod.Lex.right _ (by omega))
  · exact Prod.Lex.right _ (Prod.Lex.left _ _ (sizeOf_properties_lt s))

/-- Resolves the array that a schema describes. -/
def arrayOf (d : Document) (path : List String) (name? : Option String) (s : Schema)
    (context : String) : Resolving Descriptor :=
  match _h : s.items with
  | none => refuse (.missingItems context)
  | some it => do
    return .array name? (← typeOf d path it (context ++ "Item"))
termination_by (unentered d path, sizeOf s, 0)
decreasing_by
  exact Prod.Lex.right _ (Prod.Lex.left _ _ (sizeOf_items_lt _h))

/-- Resolves the properties of an object. -/
def propertiesOf (d : Document) (path : List String) (required : List String) (context : String) :
    List (String × Schema) → Resolving (List Property)
  | [] => pure []
  | (name, s) :: rest => do
    let type ← typeOf d path s (context ++ Naming.pascalCase name)
    let more ← propertiesOf d path required context rest
    return { name, type, format := s.format, required := required.contains name } :: more
termination_by props => (unentered d path, sizeOf props, 0)
decreasing_by
  · exact Prod.Lex.right _
      (Prod.Lex.left _ _ (by simp only [List.cons.sizeOf_spec, Prod.mk.sizeOf_spec]; omega))
  · exact Prod.Lex.right _
      (Prod.Lex.left _ _ (by simp only [List.cons.sizeOf_spec, Prod.mk.sizeOf_spec]; omega))

/-- Resolves a pointer.  Its schema is expanded once; later uses give the same pointer. -/
def reference (d : Document) (path : List String) (pointer : String) : Resolving Descriptor := do
  if (← get).table.contains pointer then return .ref pointer
  match _hp : path.contains pointer with
  | true =>
    modify fun p => { p with table := p.table.mark pointer }
    return .ref pointer
  | false =>
    match _hs : d.schema? pointer with
    | none => refuse (.unresolvedRef pointer)
    | some s =>
      let name ← typeName (Naming.simpleName pointer) "Schema"
      modify fun p => { p with entered := p.entered ++ [pointer] }
      let resolved ← named d (pointer :: path) s name
      modify fun p => { p with table := p.table.insert pointer resolved }
      return .ref pointer
termination_by (unentered d path, 0, 0)
decreasing_by
  exact Prod.Lex.left _ _ (unentered_cons_lt _hs _hp)

/-- Resolves the target of a pointer: arrays and objects keep its name. -/
def named (d : Document) (path : List String) (s : Schema) (name : String) :
    Resolving Descriptor :=
  if s.ref.isSome || s.isComposition then typeOf d path s name
  else if s.type = some "array" then arrayOf d path (some name) s name
  else if isObject s then do
    return record (some name) name (← propertiesOf d path s.required name s.properties)
  else typeOf d path s name
termination_by (unentered d path, sizeOf s, 2)
decreasing_by
  · exact Prod.Lex.right _ (Prod.Lex.right _ (by omega))
  · exact Prod.Lex.right _ (Prod.Lex.right _ (by omega))
  · exact Prod.Lex.right _ (Prod.Lex.left _ _ (sizeOf_properties_lt s))
  · exact Prod.Lex.right _ (Prod.Lex.right _ (by omega))

end

/-- Resolves the schema of a parameter or header to a scalar type, if it describes one; without a
schema it is a text. -/
def primitiveOf? (d : Document) (s? : Option Schema) (context : String) :
    Resolving (Option Primitive) :=
  match s? with
  | none => pure (some .string)
  | some s => do
    let t ← typeOf d [] s context
    return ((← get).table.resolve? t).bind Descriptor.primitive?

end Resolve
end ApiContract
