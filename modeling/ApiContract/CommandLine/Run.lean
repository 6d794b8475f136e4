import ApiContract.CommandLine.Arguments
import ApiContract.Target.Configuration
import ApiContract.Target.Generate

/-!
# A run of the command

**Input:** the arguments and a disk.

**Results:** `run` makes the code of every target in its order and stops at the first that fails; no
target is begun unless all are well configured.
-/

namespace ApiContract
namespace CommandLine

/-- What a run has done. -/
structure Report where
  /-- The disk afterwards. -/
  disk : Disk
  /-- The files that were shown instead of written, with their text. -/
  shown : List (FilePath × String) := []
  /-- What is said about the run, line by line. -/
  summary : List String := []
  /-- What was passed over. -/
  warnings : List Warning := []
  /-- Exit status. -/
  exit : Nat := 0

/-- What is said at the beginning of a dry run. -/
def dryRunLine : String :=
  "Dry run mode - no files will be written"

/-- What is said of a target that succeeded. -/
def successLine (t : Target) (files : Nat) : String :=
  s!"generated {t.name} ({files} files) -> {t.output.text}"

/-- What is said of a target that failed. -/
def failureLine (t : Target) (e : GenerateError) : String :=
  s!"failed {t.name}: {e.message}"

/-- The target that the arguments describe, if they name no configuration file. -/
def targetOf (a : Arguments) : Target :=
  { name := (a.value? .name).getD "api"
    spec := ⟨(a.value? .spec).getD ""⟩
    output := ⟨(a.value? .output).getD ""⟩
    namePrefix := a.value? .namePrefix
    client := a.has .client
    bundle := a.has .bundle }

/-- The targets that the arguments ask for. -/
def targets (d : Disk) (a : Arguments) : Except ConfigError (List Target) :=
  match a.value? .config with
  | some path => Target.load d ⟨path⟩
  | none => .ok [targetOf a]

/-- Adds what one target did to a report. -/
def Report.add (r : Report) (t : Target) (dryRun : Bool) (o : Outcome) : Report :=
  let lines :=
    match o.result with
    | .ok files => if dryRun then [] else [successLine t files.length]
    | .error e => [failureLine t e]
  { disk := o.disk
    shown := r.shown ++ o.shown
    summary := r.summary ++ lines
    warnings := r.warnings ++ o.warnings
    exit := if o.result.toBool then r.exit else 1 }

/-- Makes the code of targets, up to the first that fails. -/
def runTargets (inspect : Target.Inspector) (dryRun : Bool) (r : Report) : List Target → Report
  | [] => r
  | t :: ts =>
    let o := t.generateWith inspect r.disk dryRun
    let r := r.add t dryRun o
    if o.result.toBool then runTargets inspect dryRun r ts else r

/-- Makes the code that arguments ask for. -/
def generate (inspect : Target.Inspector) (d : Disk) (a : Arguments) : Report :=
  match targets d a with
  | .error _ => { disk := d, exit := 1 }
  | .ok ts =>
    let dryRun := a.has .dryRun
    runTargets inspect dryRun { disk := d, summary := if dryRun then [dryRunLine] else [] } ts

/-- Does what the arguments ask for, with the given inspection of code. -/
def runWith (inspect : Target.Inspector) (d : Disk) (args : List String) : Report :=
  match Request.ofArgs args with
  | .error _ => { disk := d, exit := 2 }
  | .ok (.generate a) => generate inspect d a
  | .ok _ => { disk := d }

/-- Does what the arguments ask for. -/
def run (d : Disk) (args : List String) : Report :=
  runWith Target.lenient d args

/-- The paths that a run looks at, as far as the disk shows them. -/
def paths (d : Disk) (args : List String) : List FilePath :=
  match Request.ofArgs args with
  | .ok (.generate a) =>
    let config := ((a.value? .config).map FilePath.mk).toList
    match targets d a with
    | .error _ => config
    | .ok ts => config ++ ts.flatMap fun t =>
        let files := (((t.prepare d).1.map t.placed).toOption.getD []).map (·.1)
        t.spec :: t.output :: files ++ files.map (·.withExtension "tmp")
  | _ => []

end CommandLine
end ApiContract
