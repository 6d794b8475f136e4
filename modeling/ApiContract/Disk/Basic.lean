import ApiContract.Assoc
import ApiContract.Bytes
import ApiContract.Disk.Path

/-!
# Files and directories

A disk is what stands at every place; a place is a list of names from the working directory on.
Everything that reads or changes a disk is a function on this value.  A disk is never full, and
everything on it may be read and changed.

**Results:** `walk` finds the place that a path means; `read`, `write`, `makeDirectory`, `rename`
and `remove` fail with a cause and then leave the disk as it was; `makeDirectories` may have made
some of the directories when it fails.
-/

namespace ApiContract

/-- What stands at a place. -/
inductive Entry
  | directory
  | file (content : ByteArray)
deriving DecidableEq, Inhabited

/-- Names from the root on. -/
abbrev Place := List String

/-- Files and directories by place, and the working directory.  The root has no entry. -/
structure Disk where
  /-- Where paths begin that do not begin at the root. -/
  home : Place := []
  entries : Assoc Place Entry := []
deriving DecidableEq, Inhabited

namespace Disk

/-- Why an operation on files failed. -/
inductive Fault
  /-- Nothing is there. -/
  | missing
  /-- A file is there where a directory was to be made. -/
  | taken
  /-- A name before the last one is not a directory, or the path asks for a directory. -/
  | notDirectory
  /-- A file was asked for, and a directory is there. -/
  | isDirectory
  /-- A file was to take the place of a directory that is in use. -/
  | busy
  /-- A name has too many bytes. -/
  | nameTooLong
  /-- A path has a NUL character. -/
  | nul
deriving DecidableEq, Inhabited

/-- The system's wording of a fault. -/
def Fault.message : Fault → String
  | missing => "No such file or directory (os error 2)"
  | taken => "File exists (os error 17)"
  | notDirectory => "Not a directory (os error 20)"
  | isDirectory => "Is a directory (os error 21)"
  | busy => "Device or resource busy (os error 16)"
  | nameTooLong => "File name too long (os error 36)"
  | nul => "file name contained an unexpected NUL byte"

/-- What stands at a place. -/
def at? (d : Disk) (p : Place) : Option Entry :=
  if p.isEmpty then some .directory else d.entries.get? p

/-- Whether a directory stands at a place. -/
def holdsDirectory (d : Disk) (p : Place) : Bool :=
  d.at? p == some .directory

/-- How many bytes a name may have. -/
def nameLimit : Nat :=
  255

/-- The place that names lead to from a directory; all but the last must lead to directories. -/
def walk (d : Disk) (p : Place) : List String → Except Fault Place
  | [] => .ok p
  | name :: rest =>
    match d.at? p with
    | none => .error .missing
    | some (.file _) => .error .notDirectory
    | some .directory =>
      if nameLimit < name.utf8ByteSize then .error .nameTooLong
      else walk d (if name = ".." then p.dropLast else p ++ [name]) rest

/-- Whether a path has a NUL character, which the system takes for its end. -/
def hasNul (path : FilePath) : Bool :=
  path.text.toList.any (·.toNat = 0)

/-- The place that a path means, whether or not something stands there. -/
def place (d : Disk) (path : FilePath) : Except Fault Place :=
  if path.text.isEmpty then .error .missing
  else if hasNul path then .error .nul
  else d.walk (if path.isAbsolute then [] else d.home) path.names

/-- What a path means. -/
def find (d : Disk) (path : FilePath) : Except Fault (Place × Entry) := do
  let p ← d.place path
  match d.at? p with
  | none => .error .missing
  | some (.file b) =>
    if path.endsSilent then .error .notDirectory else return (p, .file b)
  | some .directory => return (p, .directory)

/-- Whether a path means a directory. -/
def isDirectory (d : Disk) (path : FilePath) : Bool :=
  match d.find path with
  | .ok (_, .directory) => true
  | _ => false

/-- The content of a file. -/
def read (d : Disk) (path : FilePath) : Except Fault ByteArray := do
  match ← d.find path with
  | (_, .file b) => return b
  | (_, .directory) => .error .isDirectory

/-- Puts an entry to a place. -/
def put (d : Disk) (p : Place) (e : Entry) : Disk :=
  { d with entries := d.entries.put p e }

/-- Leaves a place out. -/
def drop (d : Disk) (p : Place) : Disk :=
  { d with entries := d.entries.drop p }

/-- The place of a file that may be made or replaced. -/
def filePlace (d : Disk) (path : FilePath) : Except Fault Place := do
  let p ← d.place path
  if path.endsSilent ∨ d.holdsDirectory p then .error .isDirectory
  else if d.holdsDirectory p.dropLast then return p
  else .error .missing

/-- Writes a file, replacing one that is there. -/
def write (d : Disk) (path : FilePath) (content : ByteArray) : Except Fault Disk := do
  let p ← d.filePlace path
  return d.put p (.file content)

/-- Makes the directory of a path unless it is there; the directory around it must be there. -/
def makeDirectory (d : Disk) (path : FilePath) : Except Fault Disk := do
  let p ← d.place path
  match d.at? p with
  | some .directory => return d
  | some (.file _) => .error .taken
  | none => if d.holdsDirectory p.dropLast then return d.put p .directory else .error .missing

/-- A disk after a step, which leaves it as it was when it fails. -/
def settle (d : Disk) : Except Fault Disk → Disk × Except Fault Unit
  | .ok d' => (d', .ok ())
  | .error e => (d, .error e)

/-- Makes the directory of a path and those around it, up to the given number of them.  Those that
have been made stay when one below them cannot be made. -/
def makeDirectoriesWithin : Nat → Disk → FilePath → Disk × Except Fault Unit
  | 0, d, _ => (d, .ok ())
  | bound + 1, d, path =>
    match path.parent? with
    | none => (d, .ok ())
    | some parent =>
      match d.makeDirectory path with
      | .error .missing =>
        match makeDirectoriesWithin bound d parent with
        | (d', .ok ()) => d'.settle (d'.makeDirectory path)
        | failed => failed
      | r => d.settle r

/-- Makes the directory of a path and those around it. -/
def makeDirectories (d : Disk) (path : FilePath) : Disk × Except Fault Unit :=
  makeDirectoriesWithin (path.names.length + 1) d path

/-- The place to which a file may be moved.  A path that ends in dots means a directory that is in
use, and one that ends in a slash cannot mean a file. -/
def targetPlace (d : Disk) (path : FilePath) : Except Fault Place := do
  let _ ← d.place path
  if path.endsInDots then
    let _ ← d.find path
    .error .busy
  else if path.endsSilent then .error .notDirectory
  else d.filePlace path

/-- Gives a file another place, where it replaces a file that is there. -/
def rename (d : Disk) (old new : FilePath) : Except Fault Disk := do
  match ← d.find old with
  | (_, .directory) => .error .isDirectory
  | (p, .file b) =>
    let q ← d.targetPlace new
    return (if p = q then d else (d.drop p).put q (.file b))

/-- Removes a file. -/
def remove (d : Disk) (path : FilePath) : Except Fault Disk := do
  match ← d.find path with
  | (_, .directory) => .error .isDirectory
  | (p, .file _) => return d.drop p

/-- Adds a directory and those around it. -/
def plantDirectory (d : Disk) (p : Place) : Disk :=
  (List.range p.length).foldl (fun d n =>
    if (d.at? (p.take (n + 1))).isSome then d else d.put (p.take (n + 1)) .directory) d

/-- Adds a file and the directories around it; a path that ends in a slash adds a directory. -/
def plant (d : Disk) (path : FilePath) (content : ByteArray) : Disk :=
  let p := d.home ++ path.names
  if path.endsSilent then d.plantDirectory p
  else (d.plantDirectory p.dropLast).put p (.file content)

/-! ## Listing -/

/-- Whether a place comes before another in the order of their names. -/
def comesBefore : Place → Place → Bool
  | [], q => !q.isEmpty
  | _ :: _, [] => false
  | a :: p, b :: q => a < b || a == b && comesBefore p q

/-- The files below the working directory with their content, in the order of their places. -/
def files (d : Disk) : List (Place × ByteArray) :=
  (d.entries.filterMap fun (p, e) =>
    match e with
    | .file b => if d.home.isPrefixOf p then some (p.drop d.home.length, b) else none
    | .directory => none).mergeSort fun a b => !comesBefore b.1 a.1

end Disk
end ApiContract
