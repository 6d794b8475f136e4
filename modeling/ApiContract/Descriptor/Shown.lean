import ApiContract.Descriptor
import ApiContract.Text.Shown

/-!
# Descriptors in messages

The one-line text of a descriptor, with the names of its kinds and fields.
-/

namespace ApiContract

/-- How a message shows something that may be absent. -/
def shownOption {α : Type} (f : α → String) : Option α → String
  | some a => "Some(" ++ f a ++ ")"
  | none => "None"

/-- How a message shows named fields behind a name. -/
def shownFields (name : String) (fields : List (String × String)) : String :=
  name ++ " \x7b " ++ String.intercalate ", " (fields.map fun (k, v) => k ++ ": " ++ v) ++ " \x7d"

/-- How a message shows a list. -/
def shownList (items : List String) : String :=
  "[" ++ String.intercalate ", " items ++ "]"

namespace Primitive

/-- How a message shows a scalar type. -/
def shown : Primitive → String
  | .int => "Int"
  | .int64 => "Int64"
  | .float => "Float"
  | .string => "String"
  | .boolean => "Boolean"

end Primitive

namespace Descriptor

mutual

/-- How a message shows a descriptor. -/
def shown : Descriptor → String
  | .primitive p => "Primitive(" ++ p.shown ++ ")"
  | .fileUpload => "FileUpload"
  | .file => "File"
  | .array name e =>
    shownFields "Array" [("name", shownOption Text.shown name), ("element", shown e)]
  | .object name ps =>
    shownFields "Object"
      [("name", shownOption Text.shown name), ("properties", shownList (shownProperties ps))]
  | .oneOf name vs =>
    shownFields "OneOf"
      [("name", Text.shown name),
        ("variants", "\x7b" ++ String.intercalate ", " (shownVariants vs) ++ "\x7d")]
  | .ref pointer => shownFields "RefType" [("pointer", Text.shown pointer)]

/-- How a message shows properties. -/
def shownProperties : List (PropertyOf Descriptor) → List String
  | [] => []
  | ⟨n, t, f, r⟩ :: ps =>
    shownFields "TypePropertyDescriptor"
      [("name", Text.shown n), ("ty", shown t), ("format", shownOption Text.shown f),
        ("required", toString r)] :: shownProperties ps

/-- How a message shows variants. -/
def shownVariants : List (String × List Descriptor) → List String
  | [] => []
  | (tag, ms) :: vs =>
    (Text.shown tag ++ ": " ++ shownList (shownMembers ms)) :: shownVariants vs

/-- How a message shows members. -/
def shownMembers : List Descriptor → List String
  | [] => []
  | m :: ms => shown m :: shownMembers ms

end

end Descriptor
end ApiContract
