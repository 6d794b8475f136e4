/-!
# Type descriptors

The shape of a value on the wire, as resolved from a document.  A named schema stays behind a
pointer (`Descriptor.ref`), so that shared and recursive shapes are finite.

**Results:** the descriptor type with decidable equality, equality up to the order of variants
(`alike`), and its sub-descriptors (`parts`, `pointers`), which later statements about "any depth"
are made with.
-/

namespace ApiContract

/-- Scalar types. -/
inductive Primitive
  /-- A signed whole number of thirty-two bits. -/
  | int
  /-- A signed whole number of sixty-four bits. -/
  | int64
  /-- A floating point number. -/
  | float
  /-- A text. -/
  | string
  /-- A truth value. -/
  | boolean
deriving DecidableEq, Inhabited

namespace Primitive

/-- All scalar types. -/
def all : List Primitive :=
  [.int, .int64, .float, .string, .boolean]

/-- The name of a scalar type. -/
def name : Primitive → String
  | .int => "int"
  | .int64 => "int64"
  | .float => "float"
  | .string => "string"
  | .boolean => "boolean"

/-- The scalar type of a name. -/
def ofName? (s : String) : Option Primitive :=
  all.find? (·.name == s)

end Primitive

/-- A named member with a type from `τ`. -/
structure PropertyOf (τ : Type) where
  /-- Wire name. -/
  name : String
  /-- Type of the value. -/
  type : τ
  /-- The schema's `format`, if it has one. -/
  format : Option String := none
  /-- Whether the member must be present. -/
  required : Bool
deriving Inhabited, DecidableEq

/-- The shape of a value. -/
inductive Descriptor
  | primitive (p : Primitive)
  /-- A file received in a multipart request. -/
  | fileUpload
  /-- A binary payload sent back in a response. -/
  | file
  /-- A list; a named one becomes a wrapper record. -/
  | array (name : Option String) (element : Descriptor)
  /-- A record; one without properties is an open map with text keys. -/
  | object (name : Option String) (properties : List (PropertyOf Descriptor))
  /-- A closed sum: the members that each variant carries. -/
  | oneOf (name : String) (variants : List (String × List Descriptor))
  /-- What a pointer stands for. -/
  | ref (pointer : String)
deriving Inhabited

/-- A named member of a record. -/
abbrev Property := PropertyOf Descriptor

namespace Descriptor

/-! ## Equality -/

mutual

/-- Whether two descriptors are the same. -/
def same : Descriptor → Descriptor → Bool
  | .primitive p, .primitive q => p == q
  | .fileUpload, .fileUpload => true
  | .file, .file => true
  | .array n e, .array m f => n == m && same e f
  | .object n ps, .object m qs => n == m && sameProperties ps qs
  | .oneOf n vs, .oneOf m ws => n == m && sameVariants vs ws
  | .ref p, .ref q => p == q
  | _, _ => false
termination_by structural a => a

/-- Whether two lists of properties are the same. -/
def sameProperties : List (PropertyOf Descriptor) → List (PropertyOf Descriptor) → Bool
  | [], [] => true
  | ⟨n, t, f, r⟩ :: ps, ⟨m, u, g, s⟩ :: qs =>
    n == m && same t u && f == g && r == s && sameProperties ps qs
  | _, _ => false
termination_by structural ps => ps

/-- Whether two lists of variants are the same. -/
def sameVariants : List (String × List Descriptor) → List (String × List Descriptor) → Bool
  | [], [] => true
  | (t, ms) :: vs, (u, ns) :: ws => t == u && sameMembers ms ns && sameVariants vs ws
  | _, _ => false
termination_by structural vs => vs

/-- Whether two lists of members are the same. -/
def sameMembers : List Descriptor → List Descriptor → Bool
  | [], [] => true
  | m :: ms, n :: ns => same m n && sameMembers ms ns
  | _, _ => false
termination_by structural ms => ms

end

mutual

theorem same_iff : (a b : Descriptor) → (same a b = true ↔ a = b)
  | .primitive p, b => by cases b <;> simp [same]
  | .fileUpload, b => by cases b <;> simp [same]
  | .file, b => by cases b <;> simp [same]
  | .array n e, b => by cases b <;> simp [same, same_iff e]
  | .object n ps, b => by cases b <;> simp [same, sameProperties_iff ps]
  | .oneOf n vs, b => by cases b <;> simp [same, sameVariants_iff vs]
  | .ref p, b => by cases b <;> simp [same]

theorem sameProperties_iff :
    (ps qs : List (PropertyOf Descriptor)) → (sameProperties ps qs = true ↔ ps = qs)
  | [], qs => by cases qs <;> simp [sameProperties]
  | ⟨n, t, f, r⟩ :: ps, qs => by
    cases qs with
    | nil => simp [sameProperties]
    | cons q qs =>
      cases q
      simp [sameProperties, same_iff t, sameProperties_iff ps, and_assoc]

theorem sameVariants_iff :
    (vs ws : List (String × List Descriptor)) → (sameVariants vs ws = true ↔ vs = ws)
  | [], ws => by cases ws <;> simp [sameVariants]
  | (t, ms) :: vs, ws => by
    cases ws with
    | nil => simp [sameVariants]
    | cons w ws =>
      cases w
      simp [sameVariants, sameMembers_iff ms, sameVariants_iff vs]

theorem sameMembers_iff : (ms ns : List Descriptor) → (sameMembers ms ns = true ↔ ms = ns)
  | [], ns => by cases ns <;> simp [sameMembers]
  | m :: ms, ns => by cases ns <;> simp [sameMembers, same_iff m, sameMembers_iff ms]

end

instance : DecidableEq Descriptor := fun a b =>
  decidable_of_iff (same a b = true) (same_iff a b)

/-! ## Equality up to the order of variants -/

mutual

/-- Whether two descriptors differ in the order of variants at most. -/
def alike : Descriptor → Descriptor → Bool
  | .primitive p, .primitive q => p == q
  | .fileUpload, .fileUpload => true
  | .file, .file => true
  | .array n e, .array m f => n == m && alike e f
  | .object n ps, .object m qs => n == m && alikeProperties ps qs
  | .oneOf n vs, .oneOf m ws => n == m && vs.length == ws.length && alikeVariants vs ws
  | .ref p, .ref q => p == q
  | _, _ => false
termination_by structural a => a

/-- Whether two lists of properties are alike, one after another. -/
def alikeProperties : List (PropertyOf Descriptor) → List (PropertyOf Descriptor) → Bool
  | [], [] => true
  | ⟨n, t, f, r⟩ :: ps, ⟨m, u, g, s⟩ :: qs =>
    n == m && alike t u && f == g && r == s && alikeProperties ps qs
  | _, _ => false
termination_by structural ps => ps

/-- Whether every variant has one with its tag and like members among others. -/
def alikeVariants : List (String × List Descriptor) → List (String × List Descriptor) → Bool
  | [], _ => true
  | (t, ms) :: vs, ws => ws.any (fun w => t == w.1 && alikeMembers ms w.2) && alikeVariants vs ws
termination_by structural vs => vs

/-- Whether two lists of members are alike, one after another. -/
def alikeMembers : List Descriptor → List Descriptor → Bool
  | [], [] => true
  | m :: ms, n :: ns => alike m n && alikeMembers ms ns
  | _, _ => false
termination_by structural ms => ms

end

/-! ## Views -/

/-- The type name of a descriptor, if it has one. -/
def name? : Descriptor → Option String
  | .array name _ => name
  | .object name _ => name
  | .oneOf name _ => some name
  | _ => none

/-- Whether a descriptor is a record without properties. -/
def isDynamicMap : Descriptor → Bool
  | .object _ ps => ps.isEmpty
  | _ => false

/-- Whether a descriptor is a received file. -/
def isFileUpload : Descriptor → Bool
  | .fileUpload => true
  | _ => false

theorem isFileUpload_iff {t : Descriptor} : t.isFileUpload = true ↔ t = .fileUpload := by
  cases t <;> simp [isFileUpload]

/-- The scalar type of a descriptor that is one. -/
def primitive? : Descriptor → Option Primitive
  | .primitive p => some p
  | _ => none

theorem primitive?_eq_some_iff {t : Descriptor} {q : Primitive} :
    t.primitive? = some q ↔ t = .primitive q := by
  cases t <;> simp [primitive?]

mutual

/-- The descriptor and everything inside it, from outside in. -/
def parts : Descriptor → List Descriptor
  | .array n e => .array n e :: parts e
  | .object n ps => .object n ps :: propertyParts ps
  | .oneOf n vs => .oneOf n vs :: variantParts vs
  | t => [t]

/-- Everything inside properties. -/
def propertyParts : List (PropertyOf Descriptor) → List Descriptor
  | [] => []
  | ⟨_, t, _, _⟩ :: ps => parts t ++ propertyParts ps

/-- Everything inside variants. -/
def variantParts : List (String × List Descriptor) → List Descriptor
  | [] => []
  | (_, ms) :: vs => memberParts ms ++ variantParts vs

/-- Everything inside members. -/
def memberParts : List Descriptor → List Descriptor
  | [] => []
  | m :: ms => parts m ++ memberParts ms

end

/-- The pointer of a descriptor that is one. -/
def pointer? : Descriptor → Option String
  | .ref p => some p
  | _ => none

/-- The pointers inside a descriptor, at any depth. -/
def pointers (t : Descriptor) : List String :=
  t.parts.filterMap pointer?

end Descriptor
end ApiContract
