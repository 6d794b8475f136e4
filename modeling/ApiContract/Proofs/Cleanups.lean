import ApiContract.Proofs.Disks
import ApiContract.Service.Multipart

/-!
# Actions that are put off

**Input:** calls on a registry, from the time at which it is made until it is dropped, which cleans
up once more.

Actions of any kind may be registered between cleanups, and any of them may fail.  Between the calls
others may change the disk.

**Results:**

* `registered_runCalls`: what was registered has been run, or is still to be run, in its order;
* `actions_runCalls`: a cleanup runs what was registered since the one before;
* `Ran`: the actions of a cleanup are run one after another, whether or not they fail;
* `removals_runCalls`: after the removal of a file no other one fails, unless the file is made anew;
* `runsOnce`: so all actions are run exactly once.
-/

namespace ApiContract

/-! ## Removals -/

namespace Disk

/-- There is nothing that a path means. -/
def Gone (d : Disk) (path : FilePath) : Prop :=
  d.find path = .error .missing

section Removal

variable {d d' : Disk} {p q : Place} {path : FilePath}

theorem gone_iff : d.Gone path ↔
    d.place path = .error .missing ∨ ∃ p, d.place path = .ok p ∧ d.at? p = none := by
  unfold Gone find
  cases hplace : d.place path with
  | error fault => simp [bind, Except.bind]
  | ok p =>
      cases hat : d.at? p with
      | none => simp [bind, Except.bind, hat]
      | some e =>
          cases e with
          | directory => simp [bind, Except.bind, pure, Except.pure, hat]
          | file content =>
              by_cases hs : path.endsSilent <;>
                simp [bind, Except.bind, pure, Except.pure, hat, hs]

theorem at?_drop_of_eq_none (h : d.at? p = none) : (d.drop q).at? p = none := by
  have hp : p ≠ [] := ne_nil_of_not_directory (by rw [h]; exact nofun)
  by_cases hq : p = q
  · rw [← hq, at?_drop_self hp]
  · rw [at?_drop_of_ne hq, h]

theorem walk_drop_of_missing (hq : d.at? q ≠ some .directory) {names : List String}
    (h : d.walk p names = .error .missing) : (d.drop q).walk p names = .error .missing := by
  fun_induction Disk.walk d p names with
  | case1 => cases h
  | case2 p name rest hp => rw [Disk.walk, at?_drop_of_eq_none hp]
  | case3 => cases h
  | case4 => cases h
  | case5 p name rest hp hfits ih =>
      rw [Disk.walk, (keeps_drop hq).directories p hp]
      dsimp only
      rw [if_neg hfits]
      exact ih h

/-- What is gone stays so when a file is left out. -/
theorem Gone.drop (h : d.Gone path) (hq : d.at? q ≠ some .directory) : (d.drop q).Gone path := by
  rw [gone_iff] at h ⊢
  rcases h with h | ⟨p, hp, hat⟩
  · left
    unfold place at h ⊢
    split at h
    · rename_i htext
      rw [if_pos htext]
    · rename_i htext
      rw [if_neg htext]
      split at h
      · cases h
      · rename_i hnul
        rw [if_neg hnul]
        exact walk_drop_of_missing hq h
  · exact Or.inr ⟨p, (keeps_drop hq).place hp, at?_drop_of_eq_none hat⟩

end Removal

end Disk

namespace Cleanup

open Disk (Gone)

namespace Action

variable {d d' : Disk} {path : FilePath} {a : Action}

/-- What a removal can come to: the file is left out, nothing is there, or something hinders it. -/
theorem run_removeFile_cases (d : Disk) (path : FilePath) :
    (∃ p content, d.find path = .ok (p, .file content) ∧
        (removeFile path).run d = (d.drop p, false)) ∨
      (d.Gone path ∧ (removeFile path).run d = (d, false)) ∨
      ∃ fault, fault ≠ .missing ∧ d.remove path = .error fault ∧
        (removeFile path).run d = (d, true) := by
  cases hfind : d.find path with
  | error fault =>
      have hremove : d.remove path = .error fault := by
        rw [Disk.remove, hfind]
        rfl
      by_cases hfault : fault = .missing
      · subst hfault
        exact Or.inr (Or.inl ⟨hfind, by rw [run, hremove]⟩)
      · refine Or.inr (Or.inr ⟨fault, hfault, hremove, ?_⟩)
        rw [run, hremove]
        cases fault <;> first | rfl | exact absurd rfl hfault
  | ok found =>
      obtain ⟨p, e⟩ := found
      cases e with
      | directory =>
          have hremove : d.remove path = .error .isDirectory := by
            rw [Disk.remove, hfind]
            rfl
          exact Or.inr (Or.inr ⟨.isDirectory, nofun, hremove, by rw [run, hremove]⟩)
      | file content =>
          have hremove : d.remove path = .ok (d.drop p) := by
            rw [Disk.remove, hfind]
            rfl
          exact Or.inl ⟨p, content, rfl, by rw [run, hremove]⟩

theorem run_removeFile_of_find {p : Place} {content : ByteArray}
    (h : d.find path = .ok (p, .file content)) : (removeFile path).run d = (d.drop p, false) := by
  rcases run_removeFile_cases d path with ⟨_, _, hfind, hrun⟩ | ⟨hgone, -⟩ | ⟨_, -, hremove, -⟩
  · obtain ⟨rfl, -⟩ := Prod.mk.inj (Except.ok.inj (hfind.symm.trans h))
    exact hrun
  · rw [Gone, h] at hgone
    cases hgone
  · rw [Disk.remove, h] at hremove
    cases hremove

/-- A removal fails if something other than absence hinders it. -/
theorem run_removeFile_failed_iff :
    ((removeFile path).run d).2 = true ↔
      ∃ fault, fault ≠ .missing ∧ d.remove path = .error fault := by
  rcases run_removeFile_cases d path with ⟨p, content, hfind, hrun⟩ | ⟨hgone, hrun⟩ |
    ⟨fault, hf, hr, hrun⟩
  · rw [hrun, Disk.remove, hfind]
    simp [bind, Except.bind, pure, Except.pure]
  · rw [hrun, Disk.remove, hgone]
    simp [bind, Except.bind]
  · rw [hrun]
    exact ⟨fun _ => ⟨fault, hf, hr⟩, fun _ => rfl⟩

/-- After a removal that did not fail, nothing is there. -/
theorem gone_of_run (h : (removeFile path).run d = (d', false)) : d'.Gone path := by
  rcases run_removeFile_cases d path with ⟨p, content, hfind, hrun⟩ | ⟨hgone, hrun⟩ |
    ⟨_, -, -, hrun⟩
  · obtain ⟨rfl, -⟩ := Prod.mk.inj (hrun.symm.trans h)
    obtain ⟨hplace, hat, -⟩ := Disk.find_file_iff.1 hfind
    have hp : d.at? p ≠ some .directory := by
      rw [hat]
      exact nofun
    exact Disk.gone_iff.2 (Or.inr ⟨p, (Disk.keeps_drop hp).place hplace,
      Disk.at?_drop_self (Disk.ne_nil_of_not_directory hp)⟩)
  · obtain ⟨rfl, -⟩ := Prod.mk.inj (hrun.symm.trans h)
    exact hgone
  · cases hrun.symm.trans h

theorem run_of_gone (h : d.Gone path) : (removeFile path).run d = (d, false) := by
  rcases run_removeFile_cases d path with ⟨_, _, hfind, -⟩ | ⟨-, hrun⟩ | ⟨fault, hfault, hremove, -⟩
  · cases h.symm.trans hfind
  · exact hrun
  · rw [Disk.remove, h] at hremove
    cases hremove
    exact absurd rfl hfault

/-- An action that does not make anew what is gone. -/
def KeepsGone (a : Action) (path : FilePath) : Prop :=
  ∀ d : Disk, d.Gone path → (a.run d).1.Gone path

theorem keepsGone_removeFile (other path : FilePath) : (removeFile other).KeepsGone path := by
  intro d h
  rcases run_removeFile_cases d other with ⟨p, content, hfind, hrun⟩ | ⟨-, hrun⟩ | ⟨_, -, -, hrun⟩
  · rw [hrun]
    obtain ⟨-, hat, -⟩ := Disk.find_file_iff.1 hfind
    exact h.drop (by rw [hat]; exact nofun)
  · rwa [hrun]
  · rwa [hrun]

end Action

/-! ## Calls -/

/-- What is done while there is a registry. -/
inductive Call
  | add (a : Action)
  | removeFile (path : FilePath)
  | cleanup
  /-- Others change the disk. -/
  | elsewhere (effect : Disk → Disk)

namespace Call

/-- A call, and what it did if it was a cleanup. -/
def run (w : Workspace) : Call → Workspace × Option Outcome
  | add a => ({ w with registry := w.registry.add a }, none)
  | removeFile path => ({ w with registry := w.registry.removeFile path }, none)
  | cleanup =>
    let o := w.registry.cleanup w.disk
    ({ disk := o.disk, registry := o.registry }, some o)
  | elsewhere effect => ({ w with disk := effect w.disk }, none)

/-- The action that a call registers. -/
def action? : Call → Option Action
  | add a => some a
  | removeFile path => some (.removeFile path)
  | _ => none

def isCleanup : Call → Bool
  | cleanup => true
  | _ => false

/-- A call that does not make anew what is gone, nor registers an action that does. -/
def KeepsGone (c : Call) (path : FilePath) : Prop :=
  (∀ a, c = add a → a.KeepsGone path) ∧
    ∀ effect, c = elsewhere effect → ∀ d : Disk, d.Gone path → (effect d).Gone path

end Call

/-- Calls one after another, and what the cleanups among them did. -/
def runCalls (w : Workspace) : List Call → Workspace × List Outcome
  | [] => (w, [])
  | c :: cs =>
    let (w, o) := c.run w
    let (w, os) := runCalls w cs
    (w, o.toList ++ os)

/-- The actions that calls register. -/
def registered (cs : List Call) : List Action :=
  cs.filterMap Call.action?

/-- The actions that a cleanup ran. -/
def Outcome.actions (o : Outcome) : List Action :=
  o.report.map (·.1)

section Calls

variable {w : Workspace} {c : Call} {cs cs' : List Call} {path : FilePath}

theorem runCalls_cons (w : Workspace) (c : Call) (cs : List Call) :
    runCalls w (c :: cs) =
      ((runCalls (c.run w).1 cs).1, (c.run w).2.toList ++ (runCalls (c.run w).1 cs).2) :=
  rfl

theorem runCalls_append (w : Workspace) (cs cs' : List Call) :
    runCalls w (cs ++ cs') =
      ((runCalls (runCalls w cs).1 cs').1,
        (runCalls w cs).2 ++ (runCalls (runCalls w cs).1 cs').2) := by
  induction cs generalizing w with
  | nil => rfl
  | cons c cs ih =>
      rw [List.cons_append, runCalls_cons, runCalls_cons, ih]
      simp only [List.append_assoc]

/-! ### What is run -/

theorem registered_cons (c : Call) (cs : List Call) :
    registered (c :: cs) = c.action?.toList ++ registered cs := by
  cases hc : c.action? <;> simp [registered, hc]

/-- A call that is no cleanup runs nothing, and registers its action behind those that are still to
be run. -/
theorem run_of_not_isCleanup (h : c.isCleanup = false) (w : Workspace) :
    (c.run w).2 = none ∧ (c.run w).1.registry.pending = w.registry.pending ++ c.action?.toList := by
  cases c with
  | add a => exact ⟨rfl, rfl⟩
  | removeFile path => exact ⟨rfl, rfl⟩
  | cleanup => cases h
  | elsewhere effect => exact ⟨rfl, (List.append_nil _).symm⟩

/-- A cleanup runs everything that is still to be run. -/
theorem run_of_isCleanup (h : c.isCleanup = true) (w : Workspace) :
    c.action? = none ∧ (c.run w).1.registry.pending = [] ∧
      ∃ o, (c.run w).2 = some o ∧ o.actions = w.registry.pending := by
  cases c with
  | add a => cases h
  | removeFile path => cases h
  | cleanup => exact ⟨rfl, rfl, _, rfl, runAll_actions w.disk w.registry.pending⟩
  | elsewhere effect => cases h

/-- What was to be run and what was registered has been run, or is still to be run, in its order. -/
theorem registered_runCalls (w : Workspace) (cs : List Call) :
    w.registry.pending ++ registered cs =
      (runCalls w cs).2.flatMap (·.actions) ++ (runCalls w cs).1.registry.pending := by
  induction cs generalizing w with
  | nil => simp [registered, runCalls]
  | cons c cs ih =>
      have hstep : w.registry.pending ++ c.action?.toList =
          (c.run w).2.toList.flatMap (·.actions) ++ (c.run w).1.registry.pending := by
        cases hc : c.isCleanup with
        | false =>
            obtain ⟨hnone, hpending⟩ := run_of_not_isCleanup hc w
            rw [hnone, hpending]
            rfl
        | true =>
            obtain ⟨hnone, hpending, o, ho, hactions⟩ := run_of_isCleanup hc w
            rw [hnone, hpending, ho]
            simp [hactions]
      rw [registered_cons, ← List.append_assoc, hstep, List.append_assoc, ih, runCalls_cons]
      simp only [List.flatMap_append, List.append_assoc]

/-- Every cleanup runs what was registered since the one before, the first one also what was there
to be run. -/
theorem actions_runCalls (w : Workspace) (cs : List Call) :
    ∃ first rest, cs.splitOnP (·.isCleanup) = first :: rest ∧
      (runCalls w (cs ++ [.cleanup])).2.map (·.actions) =
        (w.registry.pending ++ registered first) :: rest.map registered := by
  induction cs generalizing w with
  | nil =>
      obtain ⟨-, -, o, ho, hactions⟩ := run_of_isCleanup (c := .cleanup) rfl w
      refine ⟨[], [], rfl, ?_⟩
      rw [List.nil_append, runCalls_cons, ho]
      simp [runCalls, registered, hactions]
  | cons c cs ih =>
      obtain ⟨first, rest, hsplit, hrest⟩ := ih (c.run w).1
      rw [List.splitOnP_cons_eq_if_modifyHead, hsplit, List.cons_append, runCalls_cons,
        List.map_append,
        hrest]
      cases hc : c.isCleanup with
      | false =>
          obtain ⟨hnone, hpending⟩ := run_of_not_isCleanup hc w
          refine ⟨c :: first, rest, rfl, ?_⟩
          rw [hnone, hpending, registered_cons, List.append_assoc]
          rfl
      | true =>
          obtain ⟨-, hpending, o, ho, hactions⟩ := run_of_isCleanup hc w
          refine ⟨[], first :: rest, rfl, ?_⟩
          rw [ho, hpending]
          simp [registered, hactions]

/-! ### How it is run -/

/-- Actions are run one after another, whether or not they fail. -/
inductive Ran : Disk → List (Action × Bool) → Disk → Prop
  | done (d : Disk) : Ran d [] d
  | step {d d₁ d₂ : Disk} {a : Action} {failed : Bool} {rest : List (Action × Bool)}
      (run : a.run d = (d₁, failed)) (ran : Ran d₁ rest d₂) : Ran d ((a, failed) :: rest) d₂

theorem ran_runAll (d : Disk) (as : List Action) : Ran d (runAll d as).2 (runAll d as).1 := by
  induction as generalizing d with
  | nil => exact .done d
  | cons a as ih => exact .step rfl (ih (a.run d).1)

/-- What is gone stays so, and its removal does not fail, if no action makes it anew. -/
theorem Ran.gone {d d' : Disk} {report : List (Action × Bool)} (h : Ran d report d')
    (hkeeps : ∀ e ∈ report, e.1.KeepsGone path) (hgone : d.Gone path) :
    d'.Gone path ∧ (.removeFile path, true) ∉ report := by
  induction h with
  | done d => exact ⟨hgone, List.not_mem_nil⟩
  | @step d d₁ d₂ a failed rest hrun _ ih =>
      rw [List.forall_mem_cons] at hkeeps
      have hnext := hkeeps.1 d hgone
      rw [hrun] at hnext
      obtain ⟨hlast, hrest⟩ := ih hkeeps.2 hnext
      refine ⟨hlast, fun hmem => ?_⟩
      rcases List.mem_cons.1 hmem with he | hmem
      · obtain ⟨rfl, rfl⟩ := Prod.mk.inj he
        cases hrun.symm.trans (Action.run_of_gone hgone)
      · exact hrest hmem

/-- Of two removals of a path, the later one does not fail after the earlier one did not. -/
def Settles (path : FilePath) (e f : Action × Bool) : Prop :=
  e = (.removeFile path, false) → f ≠ (.removeFile path, true)

theorem Ran.settles {d d' : Disk} {report : List (Action × Bool)} (h : Ran d report d')
    (hkeeps : ∀ e ∈ report, e.1.KeepsGone path) :
    report.Pairwise (Settles path) ∧ ((.removeFile path, false) ∈ report → d'.Gone path) := by
  induction h with
  | done d => exact ⟨.nil, nofun⟩
  | @step d d₁ d₂ a failed rest hrun hran ih =>
      rw [List.forall_mem_cons] at hkeeps
      obtain ⟨hpairs, hlast⟩ := ih hkeeps.2
      have hfirst : (a, failed) = (.removeFile path, false) →
          d₂.Gone path ∧ (.removeFile path, true) ∉ rest := by
        intro he
        obtain ⟨rfl, rfl⟩ := Prod.mk.inj he
        exact hran.gone hkeeps.2 (Action.gone_of_run hrun)
      refine ⟨List.pairwise_cons.2 ⟨fun f hf he => ?_, hpairs⟩, fun hmem => ?_⟩
      · rintro rfl
        exact (hfirst he).2 hf
      · rcases List.mem_cons.1 hmem with he | hmem
        · exact (hfirst he.symm).1
        · exact hlast hmem

/-! ### Removals -/

/-- What is still to be run does not make anew what is gone. -/
def PendingKeepsGone (w : Workspace) (path : FilePath) : Prop :=
  ∀ a ∈ w.registry.pending, a.KeepsGone path

theorem pendingKeepsGone_run (hw : PendingKeepsGone w path) (hc : c.KeepsGone path) :
    PendingKeepsGone (c.run w).1 path := by
  cases c with
  | add a => exact List.forall_mem_append.2 ⟨hw, List.forall_mem_singleton.2 (hc.1 a rfl)⟩
  | removeFile other =>
      exact List.forall_mem_append.2
        ⟨hw, List.forall_mem_singleton.2 (Action.keepsGone_removeFile other path)⟩
  | cleanup => exact nofun
  | elsewhere effect => exact hw

theorem ran_cleanup (w : Workspace) :
    Ran w.disk (w.registry.cleanup w.disk).report (w.registry.cleanup w.disk).disk :=
  ran_runAll w.disk w.registry.pending

theorem report_cleanup (w : Workspace) :
    (Call.cleanup.run w).2.toList.flatMap (·.report) = (w.registry.cleanup w.disk).report :=
  List.append_nil _

theorem keepsGone_of_report (hw : PendingKeepsGone w path) :
    ∀ e ∈ (w.registry.cleanup w.disk).report, e.1.KeepsGone path := by
  intro e he
  have hactions : (w.registry.cleanup w.disk).actions = w.registry.pending :=
    runAll_actions w.disk w.registry.pending
  exact hw e.1 (hactions ▸ List.mem_map_of_mem he)

/-- What is gone stays so in all calls, and no removal of it fails. -/
theorem gone_runCalls (hw : PendingKeepsGone w path) (hcs : ∀ c ∈ cs, c.KeepsGone path)
    (hgone : w.disk.Gone path) :
    (.removeFile path, true) ∉ (runCalls w cs).2.flatMap (·.report) := by
  induction cs generalizing w with
  | nil => exact List.not_mem_nil
  | cons c cs ih =>
      rw [List.forall_mem_cons] at hcs
      have hnext := pendingKeepsGone_run hw hcs.1
      rw [runCalls_cons, List.flatMap_append, List.mem_append, not_or]
      cases c with
      | add a => exact ⟨List.not_mem_nil, ih hnext hcs.2 hgone⟩
      | removeFile other => exact ⟨List.not_mem_nil, ih hnext hcs.2 hgone⟩
      | cleanup =>
          obtain ⟨hlast, hreport⟩ := (ran_cleanup w).gone (keepsGone_of_report hw) hgone
          rw [report_cleanup]
          exact ⟨hreport, ih hnext hcs.2 hlast⟩
      | elsewhere effect =>
          exact ⟨List.not_mem_nil, ih hnext hcs.2 (hcs.1.2 effect rfl _ hgone)⟩

/-- After a removal of a path that did not fail, no other one fails, unless the file is made
anew. -/
theorem removals_runCalls (hw : PendingKeepsGone w path) (hcs : ∀ c ∈ cs, c.KeepsGone path) :
    ((runCalls w cs).2.flatMap (·.report)).Pairwise (Settles path) := by
  induction cs generalizing w with
  | nil => exact .nil
  | cons c cs ih =>
      rw [List.forall_mem_cons] at hcs
      have hnext := pendingKeepsGone_run hw hcs.1
      rw [runCalls_cons, List.flatMap_append, List.pairwise_append]
      refine ⟨?_, ih hnext hcs.2, ?_⟩
      · cases c with
        | cleanup =>
            rw [report_cleanup]
            exact ((ran_cleanup w).settles (keepsGone_of_report hw)).1
        | add | removeFile | elsewhere => exact .nil
      · cases c with
        | cleanup =>
            rw [report_cleanup]
            rintro e he f hf rfl rfl
            have hgone := ((ran_cleanup w).settles (keepsGone_of_report hw)).2 he
            exact gone_runCalls hnext hcs.2 hgone hf
        | add | removeFile | elsewhere => exact nofun

/-! ### From the first call to the last -/

/-- The removals in a report that fail are those that something other than absence hinders. -/
theorem Ran.failed_iff {d d' : Disk} {before after : List (Action × Bool)} {failed : Bool}
    (h : Ran d (before ++ (.removeFile path, failed) :: after) d') :
    ∃ d₁, Ran d before d₁ ∧
      (failed = true ↔ ∃ fault, fault ≠ .missing ∧ d₁.remove path = .error fault) := by
  induction before generalizing d with
  | nil =>
      cases h with
      | step hrun =>
          refine ⟨d, .done d, ?_⟩
          rw [← Action.run_removeFile_failed_iff, hrun]
  | cons e before ih =>
      cases h with
      | step hrun hran =>
          obtain ⟨d₁, hbefore, hiff⟩ := ih hran
          exact ⟨d₁, .step hrun hbefore, hiff⟩

/-- What becomes of the actions that are registered by calls on a registry, which is dropped after
them. -/
structure RunsOnce (d : Disk) (cs : List Call) (os : List Outcome) : Prop where
  /-- Every action is run once, in the order of registration. -/
  once : os.flatMap (·.actions) = registered cs
  /-- Every cleanup, and at last the drop, runs the actions that were registered since the one
  before. -/
  since : os.map (·.actions) = (cs.splitOnP (·.isCleanup)).map registered
  /-- After any of the calls, the registry counts the registered actions that have not been run. -/
  size : ∀ before after, cs = before ++ after →
    registered before = (runCalls ⟨d, {}⟩ before).2.flatMap (·.actions) ++
        (runCalls ⟨d, {}⟩ before).1.registry.pending ∧
      (runCalls ⟨d, {}⟩ before).1.registry.size =
        (registered before).length - ((runCalls ⟨d, {}⟩ before).2.flatMap (·.actions)).length
  /-- A cleanup runs its actions on the disk that it finds, one after another, whether or not they
  fail, and counts those that fail.  A removal fails if something other than absence hinders it. -/
  cleanups : ∀ before after, cs ++ [.cleanup] = before ++ .cleanup :: after →
    ∃ o later, os = (runCalls ⟨d, {}⟩ before).2 ++ o :: later ∧
      Ran (runCalls ⟨d, {}⟩ before).1.disk o.report o.disk ∧
      o.failures = (o.report.filter (·.2)).length ∧ o.registry.size = 0 ∧
      ∀ earlier path failed rest, o.report = earlier ++ (.removeFile path, failed) :: rest →
        ∃ d₁, Ran (runCalls ⟨d, {}⟩ before).1.disk earlier d₁ ∧
          (failed = true ↔ ∃ fault, fault ≠ .missing ∧ d₁.remove path = .error fault)
  /-- After a removal of a path that did not fail no other one fails, unless something else that is
  registered, or others, make the file anew. -/
  removals : ∀ path, (∀ c ∈ cs, c.KeepsGone path) →
    ∀ before after, os.flatMap (·.report) = before ++ (.removeFile path, false) :: after →
      (.removeFile path, true) ∉ after

/-- All actions that are registered are run exactly once until the registry is dropped. -/
theorem runsOnce (d : Disk) (cs : List Call) :
    RunsOnce d cs (runCalls ⟨d, {}⟩ (cs ++ [.cleanup])).2 := by
  have hsince : (runCalls ⟨d, {}⟩ (cs ++ [.cleanup])).2.map (·.actions) =
      (cs.splitOnP (·.isCleanup)).map registered := by
    obtain ⟨first, rest, hsplit, hactions⟩ := actions_runCalls ⟨d, {}⟩ cs
    rw [hactions, hsplit]
    rfl
  have hregistered : ∀ before, registered before =
      (runCalls ⟨d, {}⟩ before).2.flatMap (·.actions) ++
        (runCalls ⟨d, {}⟩ before).1.registry.pending :=
    registered_runCalls ⟨d, {}⟩
  refine ⟨?_, hsince, fun before _ _ => ⟨hregistered before, ?_⟩, ?_, ?_⟩
  · have hall := hregistered (cs ++ [.cleanup])
    have hnone : registered (cs ++ [.cleanup]) = registered cs := by
      simp [registered, Call.action?]
    rw [hnone, runCalls_append] at hall
    rw [runCalls_append, hall]
    exact (List.append_nil _).symm
  · have hlength := congrArg List.length (hregistered before)
    rw [List.length_append] at hlength
    rw [Registry.size]
    omega
  · intro before after hcs
    rw [hcs, runCalls_append, runCalls_cons]
    refine ⟨_, _, rfl, ran_cleanup _, List.countP_eq_length_filter, rfl, ?_⟩
    intro earlier path failed rest hreport
    exact Ran.failed_iff (hreport ▸ ran_cleanup _)
  · intro path hkeeps before after hreports
    have hall : ∀ c ∈ cs ++ [.cleanup], c.KeepsGone path :=
      List.forall_mem_append.2 ⟨hkeeps, List.forall_mem_singleton.2 ⟨nofun, nofun⟩⟩
    have hpairs := removals_runCalls (w := ⟨d, {}⟩) nofun hall
    rw [hreports] at hpairs
    obtain ⟨-, hpairs, -⟩ := List.pairwise_append.1 hpairs
    exact fun hmem => (List.pairwise_cons.1 hpairs).1 _ hmem rfl rfl

/-- A file whose removal is registered three times, twice before a cleanup and once after it. -/
example : ((runCalls { disk := { entries := [(["a"], .file "x".toUTF8)] } }
    [.removeFile ⟨"a"⟩, .add (.note "fails" true), .removeFile ⟨"a"⟩, .cleanup, .removeFile ⟨"a"⟩,
      .cleanup]).2.map (·.failures)) = [1, 0] := by
  rfl

end Calls

end Cleanup
end ApiContract
