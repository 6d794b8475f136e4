import ApiContract.CommandLine.Run

/-!
# The command

Takes a picture of the files that the arguments are about, runs on the picture, and brings the files
to the state that it has afterwards.  All decisions are made by `CommandLine.run`; this module only
moves bytes.
-/

namespace ApiContract
namespace Command

/-- The names between the slashes of an absolute path. -/
def placeOf (path : String) : Place :=
  (FilePath.mk path).names

/-- The text of a place. -/
def textOf (p : Place) : String :=
  "/" ++ String.intercalate "/" p

/-- The place that a path means, as far as it can be told without looking. -/
def placeFrom (home : Place) (path : FilePath) : Place :=
  path.names.foldl (fun p name => if name = ".." then p.dropLast else p ++ [name])
    (if path.isAbsolute then [] else home)

/-- Adds what stands at a place. -/
def look (d : Disk) (p : Place) : IO Disk := do
  if p.isEmpty || (d.entries.get? p).isSome then return d
  let cwd ← IO.currentDir
  let path := cwd / textOf p
  if !(← path.pathExists) then return d
  else if ← path.isDir then return d.put p .directory
  else return d.put p (.file (← IO.FS.readBinFile path))

/-- Adds what stands at the places on the way to a path. -/
def lookAlong (d : Disk) (path : FilePath) : IO Disk :=
  let p := placeFrom d.home path
  (List.range p.length).foldlM (fun d n => look d (p.take (n + 1))) d

/-- Adds what stands where the arguments point, which may point further once it is read. -/
def lookAround (args : List String) : Nat → Disk → IO Disk
  | 0, d => return d
  | rounds + 1, d => do
    lookAround args rounds (← (CommandLine.paths d args).foldlM lookAlong d)

/-- A picture of the files that the arguments are about. -/
def picture (args : List String) : IO Disk := do
  let home := placeOf (← IO.currentDir).toString
  let d ← lookAlong { home } ⟨textOf home⟩
  lookAround args 3 d

/-- Brings what stands at a place to the given state. -/
def establish (p : Place) : Entry → IO Unit
  | .directory => IO.FS.createDirAll (textOf p)
  | .file content => do
    let beside := textOf p ++ ".tmp"
    IO.FS.writeBinFile beside content
    IO.FS.rename beside (textOf p)

/-- Brings the files from one state to another. -/
def change (old new : Disk) : IO Unit := do
  for (p, e) in new.entries do
    if old.entries.get? p != some e then establish p e
  for (p, _) in old.entries do
    if (new.entries.get? p).isNone then IO.FS.removeFile (textOf p)

/-- A warning in one line. -/
def warningLine (w : Warning) : String :=
  "WARN " ++ w.message ++ String.join (w.fields.map fun (k, v) => " " ++ k ++ "=" ++ v)

/-- Runs the command. -/
def run (args : List String) : IO UInt32 := do
  let d ← picture args
  let r := CommandLine.run d args
  change d r.disk
  for (path, text) in r.shown do
    IO.println ("=== " ++ path.text ++ " ===\n" ++ text ++ "\n")
  for w in r.warnings do
    IO.eprintln (warningLine w)
  for line in r.summary do
    IO.eprintln line
  return r.exit.toUInt32

end Command
end ApiContract

/-- Entry point: the arguments of the command line to its exit status. -/
def main (args : List String) : IO UInt32 :=
  ApiContract.Command.run args
