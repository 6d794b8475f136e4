import ApiContract.Document.Load
import ApiContract.Resolve.Document
import ApiContract.Target.Basic
import ApiContract.Target.ModuleTree

/-!
# From a target to files

**Input:** a target and a disk.

**Results:** `generate` reads the document, makes the code and writes it.  All code is made and
inspected before the first file is written, a file is written beside its place and then moved there,
and a dry run shows what would be written and leaves the disk alone.
-/

namespace ApiContract

/-- Why no code was made, or not all of it written. -/
inductive GenerateError
  /-- The target is refused. -/
  | config (cause : ConfigError)
  /-- The document cannot be read or has no shape of a document. -/
  | document (cause : LoadError)
  /-- The document cannot be resolved. -/
  | resolve (cause : ResolveError)
  /-- The code cannot be made. -/
  | emit (cause : EmitError)
  /-- The directory that the output stands in is missing. -/
  | noOutputDirectory (path : FilePath)
  /-- A file cannot be written. -/
  | write (path : FilePath) (fault : Disk.Fault)
deriving DecidableEq, Inhabited

/-- The wording of an error. -/
def GenerateError.message : GenerateError → String
  | config cause => "Invalid target configuration: " ++ cause.message
  | document _ => "Failed to load OpenAPI document"
  | resolve cause => cause.message
  | emit cause => "Code generation failed: " ++ cause.message
  | noOutputDirectory path => s!"Output directory '{path.text}' does not exist"
  | write path fault => s!"Failed to write '{path.text}': {fault.message}"

/-! ## Writing -/

/-- A disk, and whether what was to be done to it succeeded. -/
structure Written (α : Type) where
  disk : Disk
  result : Except GenerateError α

namespace Disk

/-- A step on a disk whose failure concerns the given path. -/
def attempt (d : Disk) (path : FilePath) (r : Except Fault Disk) : Written Unit :=
  match r with
  | .ok d => ⟨d, .ok ()⟩
  | .error fault => ⟨d, .error (.write path fault)⟩

/-- Goes on with a disk after a step that succeeded. -/
def andThen {α : Type} (w : Written Unit) (next : Disk → Written α) : Written α :=
  match w.result with
  | .ok () => next w.disk
  | .error e => ⟨w.disk, .error e⟩

/-- Makes the directory around a path. -/
def makeParent (d : Disk) (path : FilePath) : Written Unit :=
  match path.parent? with
  | some parent =>
    if parent.text.isEmpty then ⟨d, .ok ()⟩
    else
      let made := d.makeDirectories parent
      ⟨made.1, made.2.mapError (.write parent)⟩
  | none => ⟨d, .ok ()⟩

/-- Writes a file beside its place and moves it there, so that the place never holds half of it. -/
def writeAtomic (d : Disk) (path : FilePath) (content : ByteArray) : Written Unit :=
  let beside := path.withExtension "tmp"
  andThen (d.makeParent path) fun d =>
    andThen (d.attempt beside (d.write beside content)) fun d =>
      d.attempt path (d.rename beside path)

/-- Writes files in their order, up to the first that fails. -/
def writeAll (d : Disk) : List (FilePath × String) → Written Unit
  | [] => ⟨d, .ok ()⟩
  | (path, text) :: rest => andThen (d.writeAtomic path text.toUTF8) (writeAll · rest)

end Disk

/-! ## Generating -/

/-- What one target did. -/
structure Outcome where
  /-- The disk afterwards. -/
  disk : Disk
  /-- The files that were shown instead of written, with their text. -/
  shown : List (FilePath × String) := []
  /-- What resolution and emission passed over. -/
  warnings : List Warning := []
  /-- The paths of the written files, or why the target failed. -/
  result : Except GenerateError (List FilePath)

namespace Target

/-- What a target is made of: the description of its API. -/
def metadata (t : Target) (d : Disk) : Except GenerateError (Metadata × List Warning) := do
  match t.check with
  | .error e => .error (.config e)
  | .ok () =>
    let doc ← (Document.load d t.spec).mapError .document
    (doc.resolve t.typePrefix).mapError .resolve

/-- Finds what is wrong with code, if anything is. -/
abbrev Inspector :=
  Code → Option String

/-- Finds nothing wrong. -/
def lenient : Inspector :=
  fun _ => none

/-- Code with which nothing is wrong. -/
def inspected (inspect : Inspector) (c : Code) : Emitting Code :=
  match inspect c with
  | some cause => .error (.invalidCode cause)
  | none => .ok c

/-- The files of a target with their text, once they are inspected; their paths start at the output
directory, the path of a bundle is the output itself. -/
def renderWith (inspect : Inspector) (t : Target) (m : Metadata) :
    Emitting (List (FilePath × String)) := do
  let tree ← ModuleTree.ofMetadata m t.client
  if t.bundle then
    return [(t.output, fileText (← inspected inspect (← tree.bundle)))]
  else
    tree.files.mapM fun f => return (f.path, fileText (← inspected inspect f.code))

/-- The files of a target with their text. -/
def render (t : Target) (m : Metadata) : Emitting (List (FilePath × String)) :=
  t.renderWith lenient m

/-- The files of a target under the paths at which they are written. -/
def placed (t : Target) (files : List (FilePath × String)) : List (FilePath × String) :=
  if t.bundle then files else files.map fun (path, text) => (t.output.join path, text)

/-- Whether the directory is there in which the output of a target is to stand. -/
def hasOutputDirectory (t : Target) (d : Disk) : Except GenerateError Unit :=
  match t.output.parent? with
  | some parent =>
    if parent.text.isEmpty || d.isDirectory parent then .ok ()
    else .error (.noOutputDirectory parent)
  | none => .ok ()

/-- The files of a target that are to be written once they are inspected, and what was passed over
on the way. -/
def prepareWith (inspect : Inspector) (t : Target) (d : Disk) :
    Except GenerateError (List (FilePath × String)) × List Warning :=
  match t.metadata d with
  | .error e => (.error e, [])
  | .ok (m, warnings) =>
    let warnings := warnings ++ (Emit.modelModules m).2
    match t.renderWith inspect m with
    | .error e => (.error (.emit e), warnings)
    | .ok files => (.ok files, warnings)

/-- The files of a target that are to be written, and what was passed over on the way. -/
def prepare (t : Target) (d : Disk) :
    Except GenerateError (List (FilePath × String)) × List Warning :=
  t.prepareWith lenient d

/-- Makes and inspects the code of a target, and writes it or, in a dry run, shows it. -/
def generateWith (inspect : Inspector) (t : Target) (d : Disk) (dryRun : Bool) : Outcome :=
  match t.prepareWith inspect d with
  | (.error e, warnings) => { disk := d, warnings, result := .error e }
  | (.ok files, warnings) =>
    if dryRun then
      { disk := d, shown := files, warnings
        result := .ok (if t.bundle then [t.output] else []) }
    else
      match t.hasOutputDirectory d with
      | .error e => { disk := d, warnings, result := .error e }
      | .ok () =>
        let files := t.placed files
        let w := d.writeAll files
        { disk := w.disk, warnings, result := w.result.map fun () => files.map (·.1) }

/-- Makes the code of a target, and writes it or, in a dry run, shows it. -/
def generate (t : Target) (d : Disk) (dryRun : Bool) : Outcome :=
  t.generateWith lenient d dryRun

end Target
end ApiContract
