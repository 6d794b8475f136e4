import ApiContract.Code.Token

/-!
# Source modules

A source module is code with its place in the module tree, and what documents it where it is
declared.
-/

namespace ApiContract

/-- A module of generated code. -/
structure SourceModule where
  /-- Names of the modules around it and its own name; empty for the root. -/
  place : List String
  /-- Code without declarations of child modules. -/
  code : Code
  /-- Documentation for its declaration. -/
  doc : Option String := none
deriving Inhabited

end ApiContract
