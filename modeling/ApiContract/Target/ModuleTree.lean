import ApiContract.Code.Layout
import ApiContract.Code.Source
import ApiContract.Disk.Path
import ApiContract.Emit.Client
import ApiContract.Emit.Handlers
import ApiContract.Emit.Models

/-!
# The modules of a target

**Input:** source modules with their places.

**Results:** `files` gives every module a file of its own, in which it declares its children;
`bundle` is one file in which the children stand inside their parents.  `ofMetadata` runs the
emitters and puts a root above what they made.
-/

namespace ApiContract

/-- Source modules of one target. -/
structure ModuleTree where
  modules : List SourceModule
deriving Inhabited

/-- A file of code with its path. -/
structure CodeFile where
  path : FilePath
  code : Code
deriving Inhabited

/-- The first line of every file. -/
def notice : String :=
  "// This code was automatically generated by bindery-gen. Do not edit manually."

/-- The text of code in a file: the notice, a blank line, the code. -/
def fileText (c : Code) : String :=
  notice ++ "\n\n" ++ c.layout

/-- The text of a file. -/
def CodeFile.text (f : CodeFile) : String :=
  fileText f.code

namespace ModuleTree

/-- Whether a module stands directly below a place. -/
def isBelow (parent : List String) (m : SourceModule) : Bool :=
  m.place.length == parent.length + 1 && parent.isPrefixOf m.place

/-- The modules directly below a place, in order. -/
def children (t : ModuleTree) (parent : List String) : List SourceModule :=
  t.modules.filter (isBelow parent)

/-- Where the file of a module stands. -/
def pathOf (t : ModuleTree) (m : SourceModule) : FilePath :=
  let path := m.place.foldl (fun p name => p.join ⟨name⟩) (⟨""⟩ : FilePath)
  if m.place.isEmpty || !(t.children m.place).isEmpty then path.join ⟨"mod.rs"⟩
  else path.withExtension "rs"

/-- What stands before the name of a module where it is declared. -/
def heading (m : SourceModule) : Code :=
  (m.doc.map Code.docAttrs).getD [] ++ Code.flat "pub mod" ++
    (m.place.getLast?.map Code.word).getD []

/-- Declarations of the modules below a place. -/
def declarations (t : ModuleTree) (parent : List String) : Code :=
  (t.children parent).flatMap fun m => heading m ++ Code.flat ";"

/-- Every module in a file of its own. -/
def files (t : ModuleTree) : List CodeFile :=
  t.modules.map fun m => { path := t.pathOf m, code := t.declarations m.place ++ m.code }

/-- A module with its children inside it, down to the given depth. -/
def nested (t : ModuleTree) : Nat → SourceModule → Code
  | 0, m => m.code
  | depth + 1, m =>
    (t.children m.place).flatMap (fun c => heading c ++ Code.braces (t.nested depth c)) ++ m.code

/-- The length of the longest place. -/
def height (t : ModuleTree) : Nat :=
  (t.modules.map (·.place.length)).foldl max 0

/-- The module that no other stands above. -/
def root? (t : ModuleTree) : Option SourceModule :=
  t.modules.find? (·.place.isEmpty)

/-- All modules in one file. -/
def bundle (t : ModuleTree) : Emitting Code :=
  match t.root? with
  | some root => .ok (t.nested t.height root)
  | none => .error .noRootModule

/-! ## Assembly -/

/-- A public import of a name from a module of the target. -/
def export_ (module name : String) : Code :=
  Code.flat "pub use self::" ++ Code.word module ++ Code.flat "::" ++ Code.word name ++
    Code.flat ";"

/-- The root module: it exports the contract, its controller and the client, if there is one. -/
def rootModule (m : Metadata) (client : Bool) : SourceModule :=
  { place := []
    code := export_ "server" (Emit.contractName m) ++ export_ "routes" (Emit.controllerName m) ++
      (if client then export_ "client" (Emit.clientName m) else []) }

/-- All modules for an API: root, contract, models, handlers, client. -/
def ofMetadata (m : Metadata) (client : Bool) : Emitting ModuleTree := do
  let contract ← Emit.contractModule m
  let models ← (Emit.modelModules m).1
  let handlers ← Emit.controllerModule m
  let clients ← if client then (Emit.clientModule m).map ([·]) else .ok []
  return ⟨rootModule m client :: contract :: (models ++ handlers :: clients)⟩

end ModuleTree
end ApiContract
