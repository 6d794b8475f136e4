import ApiContract.Disk.Basic
import ApiContract.Target.Basic
import ApiContract.Toml.Reader

/-!
# Configuration files

A configuration file has a table of targets by name.  Names that a target does not have are passed
over.

**Results:** `ofToml` gives the targets of a text in their order; `load` reads a file and takes its
paths from the directory of the file.
-/

namespace ApiContract
namespace Target

/-- How deep the data of a configuration is read. -/
def readDepth : Nat := 100

/-- The target of a name. -/
def ofNode? (name : String) (n : Node) : Option Target := do
  let [spec, output, namePrefix, client, bundle] ←
    n.fields? readDepth [Node.field "spec", Node.field "output", Node.field "name_prefix",
      Node.defaulted "client", Node.defaulted "bundle"] | none
  return {
    name
    spec := ⟨← Node.given? Node.text? spec⟩
    output := ⟨← Node.given? Node.text? output⟩
    namePrefix := ← Node.ifGiven? Node.text? namePrefix
    client := ← Node.orDefault? false Node.flag? client
    bundle := ← Node.orDefault? false Node.flag? bundle }

/-- The targets of a table. -/
def listOfNode? (n : Node) : Option (List Target) := do
  let named ← n.map? readDepth some some
  named.mapM fun (name, n) => ofNode? name n

/-- The targets of a configuration, unchecked. -/
def listOfToml? (source : String) : Option (List Target) := do
  let [targets] ← (← Toml.data? source).fields? readDepth [Node.defaulted "targets"] | none
  Node.orDefault? [] listOfNode? targets

/-- The targets of a configuration in the order of the text.  The first that is refused decides. -/
def ofToml (source : String) : Except ConfigError (List Target) :=
  match listOfToml? source with
  | none => .error .malformed
  | some targets => do
    targets.forM check
    return targets

/-- A target with its paths taken from a directory. -/
def within (directory : FilePath) (t : Target) : Target :=
  { t with spec := directory.join t.spec, output := directory.join t.output }

/-- The targets of a configuration file; its paths are taken from its own directory. -/
def load (d : Disk) (path : FilePath) : Except ConfigError (List Target) :=
  match (d.read path).toOption.bind String.fromUTF8? with
  | none => .error (.unreadable path.text)
  | some source => do
    let targets ← ofToml source
    return targets.map (within (path.parent?.getD ⟨"."⟩))

end Target
end ApiContract
