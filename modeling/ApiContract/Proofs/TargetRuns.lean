import ApiContract.CommandLine.Run
import ApiContract.Proofs.Emission
import ApiContract.Proofs.TargetOrder

/-!
# Runs over several targets

**Input:** a configuration file on a disk, and whatever inspects code.

All targets of the file are checked before the first is begun.  Then each is run on the disk that
the ones before it leave, and the first that fails is the last that is begun.

**Results:**

* `load_eq_ok_iff`: a configuration file gives its targets if and only if all of them are valid;
* `exists_first_failure`: unless all targets succeed, there is a first that fails;
* `runTargets_of_allSucceed`, `runTargets_of_firstFailure`: a run over targets is a run of one after
  another, and what stands behind the first that fails makes no difference;
* `configured_run`: what a run with a configuration file leaves on the disk, and how it ends.
-/

namespace ApiContract

/-- The text of a file, if it can be read as one. -/
def Disk.text? (d : Disk) (path : FilePath) : Option String :=
  (d.read path).toOption.bind String.fromUTF8?

namespace Target

/-! ## Targets of a configuration file -/

/-- The targets of a configuration file, unchecked and with their paths as they are written. -/
def listed? (d : Disk) (path : FilePath) : Option (List Target) :=
  (d.text? path).bind listOfToml?

/-- The directory that the paths in a configuration file are taken from. -/
def baseOf (path : FilePath) : FilePath :=
  path.parent?.getD ⟨"."⟩

section Loading

variable {d : Disk} {path : FilePath} {ts : List Target}

/-- A configuration file gives its targets if all of them pass the check. -/
theorem load_eq_ok_iff : load d path = .ok ts ↔ ∃ us, listed? d path = some us ∧
    (∀ u ∈ us, u.check = .ok ()) ∧ ts = us.map (within (baseOf path)) := by
  unfold load listed? Disk.text?
  cases (d.read path).toOption.bind String.fromUTF8? with
  | none => simp
  | some source =>
      rw [Option.bind_some]
      dsimp only
      unfold ofToml
      cases listOfToml? source with
      | none => simp [bind, Except.bind]
      | some us =>
          rw [Emit.bind_eq_ok]
          constructor
          · rintro ⟨vs, hvs, hts⟩
            obtain ⟨_, hcheck, hvs⟩ := Emit.bind_eq_ok.1 hvs
            obtain rfl := Except.ok.inj hvs
            exact ⟨us, rfl, Emit.forM_eq_ok_iff.1 hcheck, (Except.ok.inj hts).symm⟩
          · rintro ⟨_, hus, hcheck, rfl⟩
            obtain rfl := Option.some.inj hus
            exact ⟨us, Emit.bind_eq_ok.2 ⟨(), Emit.forM_eq_ok_iff.2 hcheck, rfl⟩, rfl⟩

end Loading

/-! ## Targets one after another -/

section Runs

variable (inspect : Inspector) (dryRun : Bool)

/-- Whether a target that is run alone on a disk succeeds. -/
def Succeeds (d : Disk) (t : Target) : Prop :=
  ∃ files, (t.generateWith inspect d dryRun).result = .ok files

/-- The disk after targets have been run alone, one after another. -/
def diskAfter (d : Disk) (ts : List Target) : Disk :=
  ts.foldl (fun d t => (t.generateWith inspect d dryRun).disk) d

/-- Every target succeeds on the disk that those before it leave. -/
def AllSucceed (d : Disk) (ts : List Target) : Prop :=
  ∀ before t after, ts = before ++ t :: after →
    t.Succeeds inspect dryRun (diskAfter inspect dryRun d before)

/-- A target is the first that fails. -/
structure FirstFailure (d : Disk) (ts before : List Target) (t : Target) (after : List Target) :
    Prop where
  place : ts = before ++ t :: after
  earlier : AllSucceed inspect dryRun d before
  fails : ¬ t.Succeeds inspect dryRun (diskAfter inspect dryRun d before)

variable {inspect dryRun} {d : Disk} {t : Target} {ts : List Target}

theorem result_toBool_iff :
    (t.generateWith inspect d dryRun).result.toBool = true ↔ t.Succeeds inspect dryRun d := by
  unfold Succeeds
  cases (t.generateWith inspect d dryRun).result with
  | ok files => exact ⟨fun _ => ⟨files, rfl⟩, fun _ => rfl⟩
  | error e => exact ⟨nofun, nofun⟩

theorem allSucceed_nil : AllSucceed inspect dryRun d [] := by
  intro before t after h
  simp at h

theorem allSucceed_cons_iff : AllSucceed inspect dryRun d (t :: ts) ↔ t.Succeeds inspect dryRun d ∧
    AllSucceed inspect dryRun (t.generateWith inspect d dryRun).disk ts := by
  constructor
  · refine fun h => ⟨h [] t ts rfl, ?_⟩
    rintro before u after rfl
    exact h (t :: before) u after rfl
  · rintro ⟨hfirst, hrest⟩ before u after hts
    cases before with
    | nil =>
        obtain ⟨rfl, -⟩ := List.cons.inj hts
        exact hfirst
    | cons v before =>
        obtain ⟨rfl, hrest'⟩ := List.cons.inj hts
        exact hrest before u after hrest'

/-- Unless all targets succeed, there is a first that fails. -/
theorem exists_first_failure (h : ¬ AllSucceed inspect dryRun d ts) :
    ∃ before t after, FirstFailure inspect dryRun d ts before t after := by
  induction ts generalizing d with
  | nil => exact absurd allSucceed_nil h
  | cons u ts ih =>
      rw [allSucceed_cons_iff, not_and] at h
      by_cases hu : u.Succeeds inspect dryRun d
      · obtain ⟨before, t, after, hfirst⟩ := ih (h hu)
        obtain ⟨hplace, hearlier, hfails⟩ := hfirst
        exact ⟨u :: before, t, after, congrArg (u :: ·) hplace,
          allSucceed_cons_iff.2 ⟨hu, hearlier⟩, hfails⟩
      · exact ⟨[], u, ts, rfl, allSucceed_nil, hu⟩

theorem FirstFailure.not_allSucceed {before after : List Target}
    (h : FirstFailure inspect dryRun d ts before t after) : ¬ AllSucceed inspect dryRun d ts :=
  fun hall => h.fails (hall before t after h.place)

/-- A dry run of a target leaves the disk alone. -/
theorem disk_dryRun (inspect : Inspector) (t : Target) (d : Disk) :
    (t.generateWith inspect d true).disk = d := by
  unfold generateWith
  split
  · rfl
  · rfl

theorem diskAfter_append (before : List Target) (t : Target) :
    diskAfter inspect dryRun d (before ++ [t]) =
      (t.generateWith inspect (diskAfter inspect dryRun d before) dryRun).disk :=
  List.foldl_append

theorem diskAfter_dryRun (inspect : Inspector) (d : Disk) (ts : List Target) :
    diskAfter inspect true d ts = d := by
  induction ts with
  | nil => rfl
  | cons t ts ih => rw [diskAfter, List.foldl_cons, disk_dryRun]; exact ih

end Runs
end Target

namespace CommandLine

open Target (Succeeds diskAfter AllSucceed FirstFailure)

section Runs

variable {inspect : Target.Inspector} {dryRun : Bool} {r : Report} {t : Target}
  {ts before after : List Target}

theorem runTargets_of_succeeds (h : t.Succeeds inspect dryRun r.disk) (ts : List Target) :
    runTargets inspect dryRun r (t :: ts) =
      runTargets inspect dryRun (r.add t dryRun (t.generateWith inspect r.disk dryRun)) ts := by
  rw [runTargets, if_pos (Target.result_toBool_iff.2 h)]

theorem runTargets_of_fails (h : ¬ t.Succeeds inspect dryRun r.disk) (ts : List Target) :
    runTargets inspect dryRun r (t :: ts) =
      r.add t dryRun (t.generateWith inspect r.disk dryRun) := by
  rw [runTargets, if_neg (mt Target.result_toBool_iff.1 h)]

theorem exit_add_of_succeeds (h : t.Succeeds inspect dryRun r.disk) :
    (r.add t dryRun (t.generateWith inspect r.disk dryRun)).exit = r.exit :=
  if_pos (Target.result_toBool_iff.2 h)

theorem exit_add_of_fails (h : ¬ t.Succeeds inspect dryRun r.disk) :
    (r.add t dryRun (t.generateWith inspect r.disk dryRun)).exit = 1 :=
  if_neg (mt Target.result_toBool_iff.1 h)

/-- Targets that all succeed are run one after another. -/
theorem runTargets_of_allSucceed (h : AllSucceed inspect dryRun r.disk ts) :
    (runTargets inspect dryRun r ts).disk = diskAfter inspect dryRun r.disk ts ∧
      (runTargets inspect dryRun r ts).exit = r.exit := by
  induction ts generalizing r with
  | nil => exact ⟨rfl, rfl⟩
  | cons t ts ih =>
      obtain ⟨hfirst, hrest⟩ := Target.allSucceed_cons_iff.1 h
      obtain ⟨hdisk, hexit⟩ := ih (r := r.add t dryRun (t.generateWith inspect r.disk dryRun)) hrest
      rw [runTargets_of_succeeds hfirst]
      exact ⟨hdisk, hexit.trans (exit_add_of_succeeds hfirst)⟩

/-- A run goes on behind targets that all succeed. -/
theorem runTargets_append (h : AllSucceed inspect dryRun r.disk before) (ts : List Target) :
    runTargets inspect dryRun r (before ++ ts) =
      runTargets inspect dryRun (runTargets inspect dryRun r before) ts := by
  induction before generalizing r with
  | nil => rfl
  | cons t before ih =>
      obtain ⟨hfirst, hrest⟩ := Target.allSucceed_cons_iff.1 h
      rw [List.cons_append, runTargets_of_succeeds hfirst, runTargets_of_succeeds hfirst]
      exact ih hrest

/-- Behind the first target that fails, none is run. -/
theorem runTargets_of_firstFailure (h : FirstFailure inspect dryRun r.disk ts before t after) :
    runTargets inspect dryRun r ts = runTargets inspect dryRun r (before ++ [t]) ∧
      (runTargets inspect dryRun r ts).disk = diskAfter inspect dryRun r.disk (before ++ [t]) ∧
      (runTargets inspect dryRun r ts).exit = 1 := by
  obtain ⟨rfl, hearlier, hfails⟩ := h
  obtain ⟨hdisk, -⟩ := runTargets_of_allSucceed hearlier
  rw [← hdisk] at hfails
  rw [runTargets_append hearlier, runTargets_append hearlier, runTargets_of_fails hfails,
    runTargets_of_fails hfails, Target.diskAfter_append, ← hdisk]
  exact ⟨rfl, rfl, exit_add_of_fails hfails⟩

end Runs

/-! ## A run with a configuration file -/

/-- The report of a run that has begun no target. -/
def begun (d : Disk) (dryRun : Bool) : Report :=
  { disk := d, summary := if dryRun then [dryRunLine] else [] }

/-- Targets have been run one after another, up to the first that fails. -/
structure RunsInTurn (inspect : Target.Inspector) (dryRun : Bool) (d : Disk) (ts : List Target)
    (r : Report) : Prop where
  /-- If all succeed, all of them have been run. -/
  all : AllSucceed inspect dryRun d ts → r.disk = diskAfter inspect dryRun d ts
  /-- If not all succeed, there is a first that fails. -/
  stopped : ¬ AllSucceed inspect dryRun d ts →
    ∃ before t after, FirstFailure inspect dryRun d ts before t after
  /-- Those up to the first that fails have been run, as if there were no others. -/
  first : ∀ before t after, FirstFailure inspect dryRun d ts before t after →
    r.disk = diskAfter inspect dryRun d (before ++ [t]) ∧
      r = runTargets inspect dryRun (begun d dryRun) (before ++ [t])
  /-- The run succeeds exactly when all of them do. -/
  exit : r.exit = 0 ↔ AllSucceed inspect dryRun d ts

/-- What a run does with a configuration file. -/
structure ConfiguredRun (inspect : Target.Inspector) (d : Disk) (dryRun : Bool) (path : FilePath)
    (r : Report) : Prop where
  /-- A file that gives no targets is refused. -/
  unlisted : Target.listed? d path = none → r.disk = d ∧ r.exit = 1
  /-- A file with an invalid target is refused, whatever stands before it. -/
  invalid : ∀ ts, Target.listed? d path = some ts → (∃ t ∈ ts, t.check ≠ .ok ()) →
    r.disk = d ∧ r.exit = 1
  /-- The targets stand in the order of the file. -/
  order : ∀ ts, Target.listed? d path = some ts →
    ∃ source, d.text? path = some source ∧ Target.InTextOrder source ts
  /-- Valid targets are run in their order, with their paths taken from the directory of the
  file. -/
  inTurn : ∀ ts, Target.listed? d path = some ts → (∀ t ∈ ts, t.check = .ok ()) →
    RunsInTurn inspect dryRun d (ts.map (Target.within (Target.baseOf path))) r
  /-- A dry run changes nothing. -/
  dry : dryRun = true → r.disk = d

section Configured

variable {d : Disk} {args : List String} {a : Arguments} {path : String}

theorem runsInTurn (inspect : Target.Inspector) (dryRun : Bool) (d : Disk) (ts : List Target) :
    RunsInTurn inspect dryRun d ts (runTargets inspect dryRun (begun d dryRun) ts) where
  all h := (runTargets_of_allSucceed (r := begun d dryRun) h).1
  stopped := Target.exists_first_failure
  first before t after h := by
    obtain ⟨halone, hdisk, -⟩ := runTargets_of_firstFailure (r := begun d dryRun) h
    exact ⟨hdisk, halone⟩
  exit := by
    constructor
    · intro hexit
      by_contra hfailed
      obtain ⟨before, t, after, h⟩ := Target.exists_first_failure hfailed
      obtain ⟨-, -, hfails⟩ := runTargets_of_firstFailure (r := begun d dryRun) h
      rw [hfails] at hexit
      cases hexit
    · exact fun h => (runTargets_of_allSucceed (r := begun d dryRun) h).2

/-- A dry run of targets leaves the disk alone, however it ends. -/
theorem RunsInTurn.disk_dryRun {inspect : Target.Inspector} {ts : List Target} {r : Report}
    (h : RunsInTurn inspect true d ts r) : r.disk = d := by
  by_cases hall : AllSucceed inspect true d ts
  · rw [h.all hall, Target.diskAfter_dryRun]
  · obtain ⟨before, t, after, hfirst⟩ := h.stopped hall
    rw [(h.first before t after hfirst).1, Target.diskAfter_dryRun]

theorem runWith_of_load_eq_ok (inspect : Target.Inspector) {ts : List Target}
    (hargs : Request.ofArgs args = .ok (.generate a)) (hpath : a.value? .config = some path)
    (h : Target.load d ⟨path⟩ = .ok ts) :
    runWith inspect d args = runTargets inspect (a.has .dryRun) (begun d (a.has .dryRun)) ts := by
  simp only [runWith, hargs, generate, targets, hpath, h]
  rfl

theorem runWith_of_load_ne_ok (inspect : Target.Inspector)
    (hargs : Request.ofArgs args = .ok (.generate a)) (hpath : a.value? .config = some path)
    (h : ∀ ts, Target.load d ⟨path⟩ ≠ .ok ts) :
    runWith inspect d args = { disk := d, exit := 1 } := by
  cases hload : Target.load d ⟨path⟩ with
  | ok ts => exact absurd hload (h ts)
  | error e => simp only [runWith, hargs, generate, targets, hpath, hload]

/-- A run with a configuration file changes nothing unless all targets in it are valid, and then it
is a run of one target after another up to the first that fails. -/
theorem configured_run (inspect : Target.Inspector) (d : Disk)
    (hargs : Request.ofArgs args = .ok (.generate a)) (hpath : a.value? .config = some path) :
    ConfiguredRun inspect d (a.has .dryRun) ⟨path⟩ (runWith inspect d args) := by
  have hrefused : (∀ ts, Target.load d ⟨path⟩ ≠ .ok ts) →
      (runWith inspect d args).disk = d ∧ (runWith inspect d args).exit = 1 := by
    intro h
    rw [runWith_of_load_ne_ok inspect hargs hpath h]
    exact ⟨rfl, rfl⟩
  have hbegun : ∀ ts, Target.load d ⟨path⟩ = .ok ts →
      RunsInTurn inspect (a.has .dryRun) d ts (runWith inspect d args) := by
    intro ts h
    rw [runWith_of_load_eq_ok inspect hargs hpath h]
    exact runsInTurn inspect (a.has .dryRun) d ts
  refine ⟨fun hnone => ?unlisted, fun ts hts hinvalid => ?invalid, fun ts hts => ?order,
    fun ts hts hvalid => ?inTurn, fun hdry => ?dry⟩
  case unlisted =>
    refine hrefused fun ts hload => ?_
    obtain ⟨us, hus, -⟩ := Target.load_eq_ok_iff.1 hload
    rw [hnone] at hus
    cases hus
  case invalid =>
    refine hrefused fun us hload => ?_
    obtain ⟨vs, hvs, hvalid, -⟩ := Target.load_eq_ok_iff.1 hload
    obtain rfl := Option.some.inj (hts.symm.trans hvs)
    obtain ⟨t, ht, hcheck⟩ := hinvalid
    exact hcheck (hvalid t ht)
  case order =>
    obtain ⟨source, hsource, hlist⟩ := Option.bind_eq_some_iff.1 hts
    exact ⟨source, hsource, Target.inTextOrder_of_listOfToml? hlist⟩
  case inTurn => exact hbegun _ (Target.load_eq_ok_iff.2 ⟨ts, hts, hvalid, rfl⟩)
  case dry =>
    by_cases hload : ∃ ts, Target.load d ⟨path⟩ = .ok ts
    · obtain ⟨ts, hts⟩ := hload
      have hruns := hbegun ts hts
      rw [hdry] at hruns
      exact hruns.disk_dryRun
    · exact (hrefused fun ts hts => hload ⟨ts, hts⟩).1

/-- Three targets, of which the second has no document. -/
def threeTargets : List Target :=
  [{ name := "a", spec := ⟨"x.json"⟩, output := ⟨"a"⟩, bundle := true },
    { name := "b", spec := ⟨"y.json"⟩, output := ⟨"b"⟩ },
    { name := "c", spec := ⟨"x.json"⟩, output := ⟨"c"⟩ }]

/-- The targets with their paths taken from the directory of their configuration file. -/
def threeRuns : List Target :=
  threeTargets.map (Target.within ⟨"conf"⟩)

def threeDisk : Disk where
  entries := [(["conf"], .directory),
    (["conf", "x.json"], .file "\x7b\"openapi\": \"3.0.0\", \"paths\": \x7b\x7d\x7d".toUTF8),
    (["conf", "bindery.toml"], .file ("[targets.a]\nspec='x.json'\noutput='a'\nbundle=true\n" ++
      "[targets.b]\nspec='y.json'\noutput='b'\n[targets.c]\nspec='x.json'\noutput='c'\n").toUTF8)]

theorem configured_run_three :
    Target.listed? threeDisk ⟨"conf/bindery.toml"⟩ = some threeTargets ∧
      ConfiguredRun Target.lenient threeDisk false ⟨"conf/bindery.toml"⟩
        (run threeDisk ["-c", "conf/bindery.toml"]) ∧
      (run threeDisk ["-c", "conf/bindery.toml"]).exit ≠ 0 ∧
      ∃ first second third, threeRuns = [first, second, third] ∧
        (run threeDisk ["-c", "conf/bindery.toml"]).disk =
          diskAfter Target.lenient false threeDisk [first, second] := by
  have hlisted : Target.listed? threeDisk ⟨"conf/bindery.toml"⟩ = some threeTargets := by
    decide +kernel
  have hvalid : ∀ t ∈ threeTargets, t.check = .ok () := by decide +kernel
  have hrun : ConfiguredRun Target.lenient threeDisk false ⟨"conf/bindery.toml"⟩
      (run threeDisk ["-c", "conf/bindery.toml"]) :=
    configured_run (a := { values := [(.config, "conf/bindery.toml")] }) Target.lenient threeDisk
      rfl rfl
  obtain ⟨first, second, third, hruns⟩ : ∃ first second third, threeRuns = [first, second, third] :=
    ⟨_, _, _, rfl⟩
  have hfirst : first.Succeeds Target.lenient false threeDisk := by
    obtain rfl := (List.cons.inj hruns).1
    exact Target.result_toBool_iff.1 (by decide +kernel)
  have hsecond : ¬ second.Succeeds Target.lenient false
      (diskAfter Target.lenient false threeDisk [first]) := by
    obtain ⟨rfl, hrest⟩ := List.cons.inj hruns
    obtain rfl := (List.cons.inj hrest).1
    exact mt Target.result_toBool_iff.2 (by decide +kernel)
  have hstop : FirstFailure Target.lenient false threeDisk threeRuns [first] second [third] :=
    ⟨hruns, Target.allSucceed_cons_iff.2 ⟨hfirst, Target.allSucceed_nil⟩, hsecond⟩
  have hturn := hrun.inTurn threeTargets hlisted hvalid
  exact ⟨hlisted, hrun, mt hturn.exit.1 hstop.not_allSucceed, first, second, third, hruns,
    (hturn.first [first] second [third] hstop).1⟩

end Configured
end CommandLine
end ApiContract
