import ApiContract.Disk.Path
import ApiContract.Naming

/-!
# Targets

A target pairs an OpenAPI document with the place of the code that is made from it.

**Results:** `Target.typePrefix` is what the names of contract, controller and client begin with;
`Target.check` refuses a target whose names give no identifiers.
-/

namespace ApiContract

/-- A document and the code to be made from it. -/
structure Target where
  /-- Module name of the code. -/
  name : String
  /-- The document. -/
  spec : FilePath
  /-- The directory of the code, or its file if it is a bundle. -/
  output : FilePath
  /-- What type names begin with, if it is not the module name. -/
  namePrefix : Option String := none
  /-- Whether a client is made. -/
  client : Bool := false
  /-- Whether all modules go into one file. -/
  bundle : Bool := false
deriving DecidableEq, Inhabited

/-- Why a configuration is refused. -/
inductive ConfigError
  /-- The name of a target is no module name. -/
  | badName (name : String)
  /-- The prefix of type names is no identifier. -/
  | badPrefix (typePrefix : String)
  /-- The configuration file cannot be read. -/
  | unreadable (path : String)
  /-- The configuration is not in TOML, or a target in it lacks a field or has a wrong one. -/
  | malformed
deriving DecidableEq, Inhabited

/-- The wording of a refusal. -/
def ConfigError.message : ConfigError → String
  | badName name => s!"target name '{name}' is not a snake_case module name"
  | badPrefix typePrefix =>
    s!"name prefix '{typePrefix}' must be alphanumeric and start with a letter"
  | unreadable path => s!"cannot read '{path}'"
  | malformed => "malformed configuration"

namespace Target

/-- What the names of contract, controller and client begin with. -/
def typePrefix (t : Target) : String :=
  Naming.pascalCase (t.namePrefix.getD t.name)

/-- Whether a text is a module name: it is its own identifier. -/
def isModuleName (s : String) : Bool :=
  !s.isEmpty && Naming.fieldIdent s == s

/-- Whether a text can begin type names. -/
def isTypePrefix (s : String) : Bool :=
  !s.isEmpty && s.toList.all Char.isAlphanum && !Naming.startsWithDigit s.toList

/-- Refuses a target whose names give no identifiers. -/
def check (t : Target) : Except ConfigError Unit :=
  if !isModuleName t.name then .error (.badName t.name)
  else if !isTypePrefix t.typePrefix then .error (.badPrefix t.typePrefix)
  else .ok ()

end Target
end ApiContract
