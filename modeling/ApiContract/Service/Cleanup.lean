import ApiContract.Disk.Basic

/-!
# Deferred cleanup

A registry holds actions that are to be run when a request is done.

**Results:** `cleanup` runs all of them in the order of their registration, goes on after one that
fails, and leaves the registry empty; its report says what was run and what failed.  Removing a file
that is already gone does not fail.
-/

namespace ApiContract
namespace Cleanup

/-- An action that is run later. -/
inductive Action
  /-- An action that leaves no trace but its label, and may fail. -/
  | note (label : String) (fails : Bool)
  | removeFile (path : FilePath)
  /-- Any other action: the disk after it, and whether it fails. -/
  | call (effect : Disk → Disk × Bool)
deriving Inhabited

/-- The disk after an action, and whether the action failed. -/
def Action.run (d : Disk) : Action → Disk × Bool
  | note _ fails => (d, fails)
  | removeFile path =>
    match d.remove path with
    | .ok d => (d, false)
    | .error .missing => (d, false)
    | .error _ => (d, true)
  | call effect => effect d

/-- The disk after actions, and for each whether it failed. -/
def runAll (d : Disk) : List Action → Disk × List (Action × Bool)
  | [] => (d, [])
  | a :: as =>
    let (d, failed) := a.run d
    let (d, report) := runAll d as
    (d, (a, failed) :: report)

/-- Actions that have not been run yet. -/
structure Registry where
  pending : List Action := []
deriving Inhabited

namespace Registry

/-- Registers an action. -/
def add (r : Registry) (a : Action) : Registry :=
  ⟨r.pending ++ [a]⟩

/-- Registers the removal of a file. -/
def removeFile (r : Registry) (path : FilePath) : Registry :=
  r.add (.removeFile path)

/-- How many actions have not been run yet. -/
def size (r : Registry) : Nat :=
  r.pending.length

/-- How a message shows a registry. -/
def shown (r : Registry) : String :=
  s!"CleanupRegistry \x7b pending: {r.size} \x7d"

end Registry

/-- What a cleanup did. -/
structure Outcome where
  registry : Registry
  disk : Disk
  /-- The actions that were run, in order, and whether each failed. -/
  report : List (Action × Bool)

/-- Runs all actions of a registry. -/
def Registry.cleanup (r : Registry) (d : Disk) : Outcome :=
  let (disk, report) := runAll d r.pending
  { registry := {}, disk, report }

namespace Outcome

/-- How many actions failed. -/
def failures (o : Outcome) : Nat :=
  o.report.countP (·.2)

/-- The warnings of a cleanup, one for each action that failed. -/
def warnings (o : Outcome) : List String :=
  (o.report.filter (·.2)).map fun _ => "cleanup action failed"

end Outcome

/-- Every action is run once, in order. -/
theorem runAll_actions (d : Disk) (as : List Action) : (runAll d as).2.map (·.1) = as := by
  induction as generalizing d with
  | nil => rfl
  | cons a as ih => simp [runAll, ih]

end Cleanup
end ApiContract
