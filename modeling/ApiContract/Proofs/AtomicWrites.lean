import ApiContract.Proofs.FilePaths
import ApiContract.Proofs.Generation

/-!
# What one write does to a disk

**Input:** a disk, a path and a text.

A file is written beside its place and then moved there.  The path beside it is made from its own,
so what stood there before is lost, and if the file cannot be moved it stays there.

**Results:**

* `names_beside`: the file and the one beside it are meant to stand in one directory, so a file that
  could be written beside its place can be moved there unless the path means a directory or is none
  that the system takes (`Unmovable`);
* `writeAtomic_ends`: a write ends before the file beside is written, before it is moved, or after
  (`WriteEnds`);
* `writeAtomic_effect`: which files a disk holds after a write, when nothing else is touched, and
  what a sequence of writes leaves.
-/

namespace ApiContract
namespace Disk

open Relation (ReflTransGen TransGen)

/-! ## The files of a disk -/

/-- The content of the file at a place, if a file is there. -/
def content? (d : Disk) (p : Place) : Option ByteArray :=
  match d.at? p with
  | some (.file b) => some b
  | _ => none

/-- Two disks hold the same files. -/
def SameFiles (d d' : Disk) : Prop :=
  ∀ p, d'.content? p = d.content? p

section Files

variable {d d' : Disk} {p q : Place} {b content : ByteArray} {path : FilePath}

theorem content?_eq_some_iff : d.content? p = some b ↔ d.at? p = some (.file b) := by
  unfold content?
  split
  · rename_i hat
    rw [hat, Option.some_inj, Option.some_inj, Entry.file.injEq]
  · rename_i hnot
    exact ⟨nofun, fun h => absurd h (hnot b)⟩

theorem content?_of_at?_eq (h : d'.at? p = d.at? q) : d'.content? p = d.content? q := by
  rw [content?, h]
  rfl

theorem content?_put_file (hp : p ≠ []) (q : Place) :
    (d.put p (.file b)).content? q = if q = p then some b else d.content? q := by
  split
  · rename_i hq
    rw [hq, content?_eq_some_iff, at?_put_self hp]
  · rename_i hq
    exact content?_of_at?_eq (at?_put_of_ne hq _)

theorem content?_drop (q : Place) :
    (d.drop p).content? q = if q = p then none else d.content? q := by
  split
  · rename_i hq
    subst hq
    rw [Option.eq_none_iff_forall_ne_some]
    exact fun b hb => (file_of_drop (content?_eq_some_iff.1 hb)).1 rfl
  · rename_i hq
    exact content?_of_at?_eq (at?_drop_of_ne hq)

theorem sameFiles_of_makes (h : ReflTransGen Makes d d') : SameFiles d d' := by
  induction h with
  | refl => exact fun _ => rfl
  | @tail d₁ _ _ hmake ih =>
      obtain ⟨p, hnone, rfl⟩ := hmake
      intro q
      by_cases hq : q = p
      · subst hq
        have hempty : d₁.content? q = none := by rw [content?, hnone]
        rw [← ih q, hempty, Option.eq_none_iff_forall_ne_some]
        intro b hb
        have hne : q ≠ [] := ne_nil_of_not_directory (d := d₁) (by simp [hnone])
        rw [content?_eq_some_iff, at?_put_self hne] at hb
        cases hb
      · exact (content?_of_at?_eq (at?_put_of_ne hq _)).trans (ih q)

end Files

/-! ## New directories -/

/-- A path is the one of a directory around another. -/
def Around (q path : FilePath) : Prop :=
  TransGen (fun a b => a.parent? = some b) path q

/-- A directory that stands on a disk stood there before, or is one of given paths. -/
def AddsDirectories (meant : FilePath → Prop) (d d' : Disk) : Prop :=
  ∀ p, d'.at? p = some .directory →
    d.at? p = some .directory ∨ ∃ q, meant q ∧ p = placeOf d.home q

section Directories

variable {d d' : Disk} {p : Place} {path : FilePath} {meant : FilePath → Prop}

theorem around_of_parent {parent q : FilePath} (hparent : path.parent? = some parent)
    (hq : q = parent ∨ Around q parent) : Around q path := by
  rcases hq with rfl | hq
  · exact .single hparent
  · exact .head hparent hq

theorem addsDirectories_makeDirectory (meant : FilePath → Prop) (h : d.makeDirectory path = .ok d')
    (hpath : meant path) : AddsDirectories meant d d' := by
  obtain ⟨q, hq, h⟩ := Emit.bind_eq_ok.1 h
  intro p hp
  split at h
  · obtain rfl := Except.ok.inj h
    exact Or.inl hp
  · cases h
  · split at h
    · obtain rfl := Except.ok.inj h
      by_cases hpq : p = q
      · exact Or.inr ⟨path, hpath, hpq.trans (place_eq_ok hq)⟩
      · rw [at?_put_of_ne hpq] at hp
        exact Or.inl hp
    · cases h

theorem addsDirectories_settle {r : Except Fault Disk}
    (h : ∀ d', r = .ok d' → AddsDirectories meant d d') :
    AddsDirectories meant d (d.settle r).1 := by
  cases r with
  | ok d' => exact h d' rfl
  | error e => exact fun _ => Or.inl

/-- Only the directory of a path and those around it are made. -/
theorem addsDirectories_makeDirectoriesWithin (bound : Nat) (d : Disk) (path : FilePath) :
    AddsDirectories (fun q => q = path ∨ Around q path) d
      (makeDirectoriesWithin bound d path).1 := by
  fun_induction makeDirectoriesWithin bound d path with
  | case1 => exact fun _ => Or.inl
  | case2 => exact fun _ => Or.inl
  | case3 bound d path parent hparent hmissing d₁ hd₁ ih =>
      rw [hd₁] at ih
      have hkeeps := keeps_of_makes (makes_makeDirectoriesWithin bound d parent)
      rw [hd₁] at hkeeps
      have hmade : AddsDirectories (· = path) d₁ (d₁.settle (d₁.makeDirectory path)).1 :=
        addsDirectories_settle fun _ h => addsDirectories_makeDirectory _ h rfl
      intro p hp
      rcases hmade p hp with hp | ⟨q, rfl, hq⟩
      · refine (ih p hp).imp_right ?_
        rintro ⟨q, hq, hplace⟩
        exact ⟨q, Or.inr (around_of_parent hparent hq), hplace⟩
      · rw [hkeeps.home] at hq
        exact Or.inr ⟨q, Or.inl rfl, hq⟩
  | case4 bound d path parent hparent hmissing hfailed ih =>
      intro p hp
      refine (ih p hp).imp_right ?_
      rintro ⟨q, hq, hplace⟩
      exact ⟨q, Or.inr (around_of_parent hparent hq), hplace⟩
  | case5 => exact addsDirectories_settle fun _ h => addsDirectories_makeDirectory _ h (Or.inl rfl)

theorem addsDirectories_makeParent (d : Disk) (path : FilePath) :
    AddsDirectories (Around · path) d (d.makeParent path).disk := by
  unfold makeParent
  split
  · rename_i parent hparent
    split
    · exact fun _ => Or.inl
    · intro p hp
      refine (addsDirectories_makeDirectoriesWithin _ d parent p hp).imp_right ?_
      rintro ⟨q, hq, hplace⟩
      exact ⟨q, around_of_parent hparent hq, hplace⟩
  · exact fun _ => Or.inl

end Directories

/-! ## A file and the one beside it -/

/-- A file cannot be moved to a path that means a directory, or has a NUL or a name that is too
long. -/
def Unmovable (d : Disk) (path : FilePath) : Prop :=
  path.endsSilent = true ∨ path.endsInDots = true ∨ hasNul path = true ∨
    (∃ name ∈ path.names, nameLimit < name.utf8ByteSize) ∨
    d.at? (placeOf d.home path) = some .directory

section Beside

variable {d d' : Disk} {p q s : Place} {path : FilePath} {content : ByteArray} {front : List String}
  {name : String}

/-- Names can be followed if all but the last lead to a directory, and the last is not too long. -/
theorem walk_concat : d.walk p (front ++ [name]) = .ok q ↔ ∃ r, d.walk p front = .ok r ∧
    d.at? r = some .directory ∧ name.utf8ByteSize ≤ nameLimit ∧
      q = if name = ".." then r.dropLast else r ++ [name] := by
  induction front generalizing p with
  | nil =>
      rw [List.nil_append, walk, walk]
      cases hp : d.at? p with
      | none => simp [hp]
      | some e =>
          cases e with
          | directory =>
              by_cases hlong : nameLimit < name.utf8ByteSize
              · simp [hp, hlong]
              · simp [hp, walk, hlong, Nat.not_lt.1 hlong, eq_comm]
          | file b => simp [hp]
  | cons first front ih =>
      rw [List.cons_append, walk, walk]
      cases hp : d.at? p with
      | none => simp
      | some e =>
          cases e with
          | directory =>
              by_cases hlong : nameLimit < first.utf8ByteSize
              · simp [hlong]
              · simpa [hlong] using ih
          | file b => simp

/-- Names that can be followed are not too long. -/
theorem fits_of_walk {names : List String} (h : d.walk p names = .ok q) :
    ∀ name ∈ names, name.utf8ByteSize ≤ nameLimit := by
  fun_induction walk d p names with
  | case1 => exact List.forall_mem_nil _
  | case2 => cases h
  | case3 => cases h
  | case4 => cases h
  | case5 p name rest hp hfits ih => exact List.forall_mem_cons.2 ⟨Nat.not_lt.1 hfits, ih h⟩

theorem place_eq_ok_iff (h : path.names = front ++ [name]) : d.place path = .ok p ↔
    hasNul path = false ∧ ∃ r, d.walk (if path.isAbsolute then [] else d.home) front = .ok r ∧
      d.at? r = some .directory ∧ name.utf8ByteSize ≤ nameLimit ∧
        p = if name = ".." then r.dropLast else r ++ [name] := by
  have htext : path.text.isEmpty = false := by
    rw [Bool.eq_false_iff]
    intro hempty
    have hnames : path.names = [] := by
      rw [FilePath.names, FilePath.body, String.isEmpty_iff.1 hempty]
      rfl
    rw [hnames] at h
    simp at h
  rw [place_eq_ok_iff_walk, h, walk_concat]
  simp only [htext, true_and]

theorem endsInDots_of_last? {before : List (List Char)}
    (h : path.last? = some (['.', '.'], before)) : path.endsInDots = true := by
  obtain ⟨silent, hbody, hsilent, -⟩ := FilePath.last?_eq_some h
  have hreverse : path.body.reverse = silent.reverse ++ ['.', '.'] :: before := by
    rw [hbody]
    simp
  rw [FilePath.endsInDots, hreverse]
  have hall : ∀ q ∈ silent.reverse, FilePath.isSilent q = true := by
    simpa using hsilent
  generalize silent.reverse = pieces at hall
  induction pieces with
  | nil => rfl
  | cons q pieces ih =>
      cases q with
      | nil => exact ih fun q hq => hall q (List.mem_cons_of_mem _ hq)
      | cons c cs =>
          have hdot : c :: cs = ['.'] := by
            simpa [FilePath.isSilent] using hall _ List.mem_cons_self
          simp [hdot]

theorem endsSilent_of_last? (h : path.last? = none) : path.endsSilent = true := by
  unfold FilePath.last? at h
  split at h
  · cases h
  · rename_i hdrop
    have hall : ∀ q ∈ path.body.reverse, FilePath.isSilent q = true := by
      simpa using List.dropWhile_eq_nil_iff.1 hdrop
    rw [FilePath.endsSilent, Option.all_eq_true]
    exact fun q hq => hall q (List.mem_reverse.2 (List.mem_of_getLast? hq))

/-- The path of a file and the one beside it lead to one directory. -/
theorem names_beside (path : FilePath) : path.endsSilent = true ∨ path.endsInDots = true ∨
    ∃ front name other, path.names = front ++ [name] ∧ name ≠ ".." ∧
      (beside path).names = front ++ [other] ∧ (beside path).isAbsolute = path.isAbsolute := by
  cases hlast : path.last? with
  | none => exact Or.inl (endsSilent_of_last? hlast)
  | some last =>
      obtain ⟨name, before⟩ := last
      by_cases hname : name = ['.', '.']
      · subst hname
        exact Or.inr (Or.inl (endsInDots_of_last? hlast))
      · obtain ⟨front, hnames, hother, habsolute⟩ :=
          FilePath.names_withExtension hlast hname "tmp" (by decide) (by decide)
        refine Or.inr (Or.inr ⟨front, _, _, hnames, fun he => hname ?_, hother, habsolute⟩)
        exact String.ofList_injective he

/-- A file that could be written beside its place can be moved there, unless the path means a
directory or is none that the system takes. -/
theorem targetPlace_eq_ok_iff_of_beside (h : d.filePlace (beside path) = .ok s) :
    d.targetPlace path = .ok p ↔ p = placeOf d.home path ∧ ¬ Unmovable d path := by
  rw [targetPlace_eq_ok_iff, filePlace_eq_ok_iff]
  constructor
  · rintro ⟨⟨hplace, hs, hfree, -⟩, hdots⟩
    obtain rfl := (place_eq_ok hplace).symm
    obtain ⟨-, hnul, hwalk⟩ := place_eq_ok_iff_walk.1 hplace
    have hfits := fits_of_walk hwalk
    refine ⟨rfl, ?_⟩
    rintro (hsilent | hindots | hhas | ⟨name, hname, hlong⟩ | hdirectory)
    · rw [hs] at hsilent
      cases hsilent
    · rw [hdots] at hindots
      cases hindots
    · rw [hnul] at hhas
      cases hhas
    · exact absurd hlong (Nat.not_lt.2 (hfits name hname))
    · exact hfree hdirectory
  · rintro ⟨hp, hmovable⟩
    obtain rfl := hp.symm
    simp only [Unmovable, not_or, Bool.not_eq_true, not_exists, not_and, Nat.not_lt] at hmovable
    obtain ⟨hs, hdots, hnul, hfits, hfree⟩ := hmovable
    obtain hsilent | hindots | ⟨front, name, other, hnames, hname, hother, habsolute⟩ :=
      names_beside path
    · rw [hs] at hsilent
      cases hsilent
    · rw [hdots] at hindots
      cases hindots
    · obtain ⟨-, r, hwalk, hr, -⟩ := (place_eq_ok_iff hother).1 (filePlace_eq_ok h).1
      rw [habsolute] at hwalk
      have hlast : name.utf8ByteSize ≤ nameLimit := hfits name (by rw [hnames]; simp)
      have hplace := (place_eq_ok_iff hnames).2 ⟨hnul, r, hwalk, hr, hlast, rfl⟩
      rw [if_neg hname] at hplace
      have htarget := place_eq_ok hplace
      rw [← htarget] at hfree ⊢
      exact ⟨⟨hplace, hs, hfree, by rw [List.dropLast_concat]; exact hr⟩, hdots⟩

theorem directory_put_file_iff (h : d.at? s ≠ some .directory) (content : ByteArray) :
    (d.put s (.file content)).at? q = some .directory ↔ d.at? q = some .directory := by
  refine ⟨fun hq => ?_, (keeps_put h _).directories q⟩
  have hne : q ≠ s := by
    rintro rfl
    rw [at?_put_self (ne_nil_of_not_directory h)] at hq
    cases hq
  rwa [at?_put_of_ne hne] at hq

theorem directory_drop_iff (h : d.at? s ≠ some .directory) :
    (d.drop s).at? q = some .directory ↔ d.at? q = some .directory := by
  refine ⟨fun hq => ?_, (keeps_drop h).directories q⟩
  have hne : q ≠ s := by
    rintro rfl
    have hdrop : (d.drop q).at? q = none := by
      rw [at?, if_neg (by simpa using ne_nil_of_not_directory h)]
      exact Assoc.get?_drop_self q d.entries
    rw [hdrop] at hq
    cases hq
  rwa [at?_drop_of_ne hne] at hq

theorem filePlace_put (h : d.filePlace path = .ok s) (content : ByteArray) :
    (d.put s (.file content)).filePlace path = .ok s := by
  obtain ⟨hplace, hs, hfree, haround⟩ := filePlace_eq_ok_iff.1 h
  exact filePlace_eq_ok_iff.2 ⟨(keeps_put hfree _).place hplace, hs,
    mt (directory_put_file_iff hfree content).1 hfree,
      (directory_put_file_iff hfree content).2 haround⟩

theorem unmovable_put_iff (h : d.at? s ≠ some .directory) :
    Unmovable (d.put s (.file content)) path ↔ Unmovable d path := by
  rw [Unmovable, Unmovable, directory_put_file_iff h]
  rfl

/-- The disk after a file has been written beside its place and moved there. -/
def moved (d : Disk) (path : FilePath) (content : ByteArray) : Disk :=
  let side := placeOf d.home (beside path)
  let target := placeOf d.home path
  let d' := d.put side (.file content)
  if side = target then d' else (d'.drop side).put target (.file content)

/-- After a file has been written beside its place, it is moved there unless the path means a
directory or is none that the system takes. -/
theorem rename_beside (h : d.filePlace (beside path) = .ok s) (content : ByteArray) :
    (Unmovable d path → ∃ fault,
      (d.put s (.file content)).rename (beside path) path = .error fault) ∧
    (¬ Unmovable d path →
      (d.put s (.file content)).rename (beside path) path = .ok (d.moved path content)) := by
  obtain ⟨hplace, hs, hfree⟩ := filePlace_eq_ok h
  obtain rfl := (place_eq_ok hplace).symm
  have hat := at?_put_self (d := d) (ne_nil_of_not_directory hfree) (.file content)
  have hfind := find_file_iff.2 ⟨(keeps_put hfree (.file content)).place hplace, hat, hs⟩
  have htarget := fun p => targetPlace_eq_ok_iff_of_beside (p := p) (filePlace_put h content)
  simp only [unmovable_put_iff hfree] at htarget
  refine ⟨fun hstuck => ?_, fun hfree => ?_⟩
  · rw [rename, hfind]
    cases hplaced : (d.put (placeOf d.home (beside path)) (.file content)).targetPlace path with
    | ok p => exact absurd hstuck ((htarget p).1 hplaced).2
    | error fault => exact ⟨fault, rfl⟩
  · rw [rename, hfind]
    have hplaced := (htarget _).2 ⟨rfl, hfree⟩
    simp only [bind, Except.bind, hplaced]
    rfl

end Beside

/-! ## One write -/

/-- The file beside a path can be written once the directory around it has been made. -/
def Reaches (d : Disk) (path : FilePath) : Prop :=
  (d.makeParent path).result = .ok () ∧
    (d.makeParent path).disk.filePlace (beside path) = .ok (placeOf d.home (beside path))

/-- The file beside a path can be written, but cannot be moved. -/
def Stuck (d : Disk) (path : FilePath) : Prop :=
  Reaches d path ∧ Unmovable (d.makeParent path).disk path

/-- How a write ends: before the file beside is written, before it is moved, or after. -/
inductive WriteEnds (d : Disk) (path : FilePath) (content : ByteArray) : Written Unit → Prop
  | refused {e : GenerateError} (h : ¬ Reaches d path) (he : OfWriting e) :
      WriteEnds d path content ⟨(d.makeParent path).disk, .error e⟩
  | stuck {fault : Fault} (h : Stuck d path) :
      WriteEnds d path content
        ⟨(d.makeParent path).disk.put (placeOf d.home (beside path)) (.file content),
          .error (.write path fault)⟩
  | done (h : Reaches d path) (hmovable : ¬ Unmovable (d.makeParent path).disk path) :
      WriteEnds d path content ⟨(d.makeParent path).disk.moved path content, .ok ()⟩

/-- A write that puts its file to its place and touches no other, or fails and touches none. -/
structure Atomic (d : Disk) (path : FilePath) (content : ByteArray) (w : Written Unit) : Prop where
  written : w.result = .ok () → w.disk.read path = .ok content
  others : w.result = .ok () → ∀ p ≠ placeOf d.home path, ∀ b,
    d.content? p = some b → w.disk.content? p = some b
  failed : ∀ e, w.result = .error e → SameFiles d w.disk

/-- What one write does to a disk. -/
structure WriteEffect (d : Disk) (path : FilePath) (content : ByteArray) (w : Written Unit) :
    Prop where
  /-- It succeeds if the file beside can be written and moved. -/
  succeeds_iff : w.result = .ok () ↔
    Reaches d path ∧ ¬ Unmovable (d.makeParent path).disk path
  /-- A failure concerns a file that cannot be written. -/
  error : ∀ e, w.result = .error e → OfWriting e
  /-- A file that is written can be read. -/
  found : w.result = .ok () → w.disk.read path = .ok content
  /-- Then the one beside it is gone, and all others are as they were. -/
  files : w.result = .ok () → ∀ p, w.disk.content? p =
    if p = placeOf d.home path then some content
    else if p = placeOf d.home (beside path) then none else d.content? p
  /-- A file that cannot be moved stays beside its place, where it has replaced what was there. -/
  stuck : Stuck d path → (∃ e, w.result = .error e) ∧ ∀ p, w.disk.content? p =
    if p = placeOf d.home (beside path) then some content else d.content? p
  /-- Every other failure leaves all files as they were. -/
  refused : ∀ e, w.result = .error e → ¬ Stuck d path → SameFiles d w.disk
  /-- Directories stay. -/
  directories : ∀ p, d.at? p = some .directory → w.disk.at? p = some .directory
  /-- Only directories around the path are new. -/
  addsDirectories : AddsDirectories (Around · path) d w.disk
  /-- Nothing else is touched exactly if nothing is lost beside the file and nothing is left
  there. -/
  atomic_iff : Atomic d path content w ↔
    (w.result = .ok () → placeOf d.home (beside path) = placeOf d.home path ∨
      d.content? (placeOf d.home (beside path)) = none) ∧
    (Stuck d path → d.content? (placeOf d.home (beside path)) = some content)

section Effect

variable {d d₁ : Disk} {path : FilePath} {content : ByteArray} {w : Written Unit}

theorem writeAtomic_ends (d : Disk) (path : FilePath) (content : ByteArray) :
    WriteEnds d path content (d.writeAtomic path content) := by
  have hhome := (keeps_of_makes (makes_makeParent d path)).home
  have hstart : d.writeAtomic path content = andThen (d.makeParent path) fun d =>
      andThen (d.attempt (beside path) (d.write (beside path) content)) fun d =>
        d.attempt path (d.rename (beside path) path) := rfl
  rw [hstart, andThen]
  cases hparent : (d.makeParent path).result with
  | error e =>
      refine .refused (fun h => ?_) (ofWriting_of_makeParent hparent)
      cases hparent.symm.trans h.1
  | ok u =>
      dsimp only
      cases hbeside : (d.makeParent path).disk.filePlace (beside path) with
      | error fault =>
          have hwrite : (d.makeParent path).disk.write (beside path) content = .error fault := by
            rw [write, hbeside]
            rfl
          rw [hwrite]
          refine .refused (fun h => ?_) ⟨beside path, fault, rfl⟩
          cases hbeside.symm.trans h.2
      | ok s =>
          have hs := place_eq_ok (filePlace_eq_ok hbeside).1
          rw [hhome] at hs
          obtain rfl := hs.symm
          have hreaches : Reaches d path := ⟨hparent, hbeside⟩
          have hwrite : (d.makeParent path).disk.write (beside path) content =
              .ok ((d.makeParent path).disk.put (placeOf d.home (beside path))
                (.file content)) := by
            rw [write, hbeside]
            rfl
          rw [hwrite]
          obtain ⟨hstuck, hdone⟩ := rename_beside hbeside content
          simp only [andThen, attempt]
          by_cases hmovable : Unmovable (d.makeParent path).disk path
          · obtain ⟨fault, hfault⟩ := hstuck hmovable
            rw [hfault]
            exact .stuck ⟨hreaches, hmovable⟩
          · rw [hdone hmovable]
            exact .done hreaches hmovable

theorem content?_moved (h : d.filePlace (beside path) = .ok (placeOf d.home (beside path)))
    (hmovable : ¬ Unmovable d path) (content : ByteArray) (p : Place) :
    (d.moved path content).content? p =
      if p = placeOf d.home path then some content
      else if p = placeOf d.home (beside path) then none else d.content? p := by
  have hside := ne_nil_of_not_directory (filePlace_eq_ok h).2.2
  have htarget : placeOf d.home path ≠ [] := by
    refine ne_nil_of_not_directory (d := d) fun hat => hmovable ?_
    exact Or.inr (Or.inr (Or.inr (Or.inr hat)))
  unfold moved
  dsimp only
  split
  · rename_i hsame
    rw [content?_put_file hside, hsame]
    split <;> rfl
  · rw [content?_put_file htarget, content?_drop, content?_put_file hside]
    split
    · rfl
    · split <;> simp_all

theorem directory_moved_iff (h : d.filePlace (beside path) = .ok (placeOf d.home (beside path)))
    (hmovable : ¬ Unmovable d path) (content : ByteArray) (p : Place) :
    (d.moved path content).at? p = some .directory ↔ d.at? p = some .directory := by
  have hside := (filePlace_eq_ok h).2.2
  have htarget : d.at? (placeOf d.home path) ≠ some .directory :=
    fun hat => hmovable (Or.inr (Or.inr (Or.inr (Or.inr hat))))
  unfold moved
  dsimp only
  split
  · exact directory_put_file_iff hside content
  · rename_i hne
    have hwritten := mt (directory_put_file_iff hside content).1 hside
    have hfree := mt (directory_put_file_iff hside content).1 htarget
    rw [directory_put_file_iff (mt (directory_drop_iff hwritten).1 hfree),
      directory_drop_iff hwritten, directory_put_file_iff hside]

/-- The places that a write changes are its own and the one beside it, also if it fails. -/
theorem keeps_writeAtomic (d : Disk) (path : FilePath) (content : ByteArray) :
    Keeps [placeOf d.home (beside path), placeOf d.home path] d
      (d.writeAtomic path content).disk := by
  have hparent := keeps_of_makes (makes_makeParent d path)
  cases hends : (d.writeAtomic path content).result with
  | ok u => exact (writeAtomic_spec hends).1
  | error e =>
      have h := writeAtomic_ends d path content
      generalize d.writeAtomic path content = w at h hends
      cases h with
      | refused => exact hparent.mono (List.nil_subset _)
      | stuck h => exact (hparent.trans (keeps_put (filePlace_eq_ok h.1.2).2.2 _)).mono (by simp)
      | done => cases hends

theorem Reaches.filePlace (h : Reaches d path) : (d.makeParent path).disk.filePlace (beside path) =
    .ok (placeOf (d.makeParent path).disk.home (beside path)) := by
  rw [(keeps_of_makes (makes_makeParent d path)).home]
  exact h.2

theorem WriteEnds.succeeds_iff (h : WriteEnds d path content w) : w.result = .ok () ↔
    Reaches d path ∧ ¬ Unmovable (d.makeParent path).disk path := by
  cases h with
  | refused h => exact ⟨nofun, fun hdone => absurd hdone.1 h⟩
  | stuck h => exact ⟨nofun, fun hdone => absurd h.2 hdone.2⟩
  | done h hmovable => exact ⟨fun _ => ⟨h, hmovable⟩, fun _ => rfl⟩

theorem WriteEnds.files (h : WriteEnds d path content w) (hok : w.result = .ok ()) (p : Place) :
    w.disk.content? p = if p = placeOf d.home path then some content
      else if p = placeOf d.home (beside path) then none else d.content? p := by
  cases h with
  | refused => cases hok
  | stuck => cases hok
  | done h hmovable =>
      have hmade := makes_makeParent d path
      have hmoved := content?_moved h.filePlace hmovable content p
      dsimp only
      rwa [(keeps_of_makes hmade).home, sameFiles_of_makes hmade p] at hmoved

theorem WriteEnds.stuck_files (h : WriteEnds d path content w) (hstuck : Stuck d path) :
    (∃ e, w.result = .error e) ∧ ∀ p, w.disk.content? p =
      if p = placeOf d.home (beside path) then some content else d.content? p := by
  cases h with
  | refused h => exact absurd hstuck.1 h
  | stuck h =>
      refine ⟨⟨_, rfl⟩, fun p => ?_⟩
      rw [content?_put_file (ne_nil_of_not_directory (filePlace_eq_ok h.1.2).2.2),
        sameFiles_of_makes (makes_makeParent d path) p]
  | done _ hmovable => exact absurd hstuck.2 hmovable

theorem WriteEnds.refused_files (h : WriteEnds d path content w) {e : GenerateError}
    (he : w.result = .error e) (hstuck : ¬ Stuck d path) : SameFiles d w.disk := by
  cases h with
  | refused => exact sameFiles_of_makes (makes_makeParent d path)
  | stuck h => exact absurd h hstuck
  | done => cases he

theorem WriteEnds.addsDirectories (h : WriteEnds d path content w) :
    AddsDirectories (Around · path) d w.disk := by
  have hmade := addsDirectories_makeParent d path
  cases h with
  | refused => exact hmade
  | stuck h =>
      intro p hp
      exact hmade p ((directory_put_file_iff (filePlace_eq_ok h.1.2).2.2 content).1 hp)
  | done h hmovable =>
      have hmoved := directory_moved_iff h.filePlace hmovable content
      intro p hp
      dsimp only at hp
      exact hmade p ((hmoved p).1 hp)

theorem writeEffect_writeAtomic (d : Disk) (path : FilePath) (content : ByteArray) :
    WriteEffect d path content (d.writeAtomic path content) := by
  have hends := writeAtomic_ends d path content
  have hfound : (d.writeAtomic path content).result = .ok () →
      (d.writeAtomic path content).disk.read path = .ok content := fun hok =>
        (writeAtomic_spec hok).2
  refine ⟨hends.succeeds_iff, fun e => ofWriting_of_writeAtomic, hfound, hends.files,
    hends.stuck_files,
    fun e => hends.refused_files, (keeps_writeAtomic d path content).directories,
    hends.addsDirectories, ?atomic_iff⟩
  constructor
  · intro hatomic
    refine ⟨fun hok => ?lost, fun hstuck => ?left⟩
    case lost =>
      by_cases hsame : placeOf d.home (beside path) = placeOf d.home path
      · exact Or.inl hsame
      · refine Or.inr (Option.eq_none_iff_forall_ne_some.2 fun b hb => ?_)
        have hkept := hatomic.others hok _ hsame b hb
        rw [hends.files hok, if_neg hsame, if_pos rfl] at hkept
        cases hkept
    case left =>
      obtain ⟨⟨e, he⟩, hfiles⟩ := hends.stuck_files hstuck
      rw [← hatomic.failed e he, hfiles, if_pos rfl]
  · rintro ⟨hlost, hleft⟩
    refine ⟨hfound, fun hok p hp b hb => ?others, fun e he p => ?failed⟩
    case others =>
      have hne : p ≠ placeOf d.home (beside path) := by
        intro hside
        obtain rfl := hside.symm
        rcases hlost hok with hsame | hnone
        · exact hp hsame
        · rw [hnone] at hb
          cases hb
      rw [hends.files hok, if_neg hp, if_neg hne, hb]
    case failed =>
      by_cases hstuck : Stuck d path
      · rw [(hends.stuck_files hstuck).2]
        split
        · rename_i hp
          rw [hp, hleft hstuck]
        · rfl
      · exact hends.refused_files he hstuck p

end Effect

/-! ## Many writes -/

/-- Writes files one after another, also after one that cannot be written; with what became of
each. -/
def writeEach (d : Disk) : List (FilePath × String) → Disk × List (Except GenerateError Unit)
  | [] => (d, [])
  | (path, text) :: rest =>
    let w := d.writeAtomic path text.toUTF8
    let after := writeEach w.disk rest
    (after.1, w.result :: after.2)

/-- No file is written where another one is, or beside another one. -/
def Independent (home : Place) (files : List (FilePath × String)) : Prop :=
  files.Pairwise fun f g => placeOf home f.1 ≠ placeOf home g.1 ∧
    placeOf home f.1 ≠ placeOf home (beside g.1) ∧ placeOf home (beside f.1) ≠ placeOf home g.1

/-- What a sequence of writes does to a disk. -/
structure SequenceEffect (d : Disk) (files : List (FilePath × String))
    (after : Disk × List (Except GenerateError Unit)) : Prop where
  /-- Files that are neither replaced nor beside one that is written are as they were. -/
  kept : ∀ p ∉ touched d.home files, after.1.content? p = d.content? p
  /-- A file that has been written is found if no later one is written there or beside there. -/
  found : ∀ first path text rest, files = first ++ (path, text) :: rest →
    after.2[first.length]? = some (.ok ()) → placeOf d.home path ∉ touched d.home rest →
    after.1.read path = .ok text.toUTF8
  /-- Independent files that can be written in two orders leave the same files in both. -/
  ordered : Independent d.home files → (∀ r ∈ after.2, r = .ok ()) →
    ∀ files', files'.Perm files → (∀ r ∈ (d.writeEach files').2, r = .ok ()) →
    SameFiles after.1 (d.writeEach files').1

section Sequences

variable {d : Disk} {files : List (FilePath × String)} {p : Place}

theorem mem_touched_iff {home : Place} : p ∈ touched home files ↔
    ∃ f ∈ files, p = placeOf home (beside f.1) ∨ p = placeOf home f.1 := by
  simp [touched]

theorem keeps_writeEach (d : Disk) (files : List (FilePath × String)) :
    Keeps (touched d.home files) d (d.writeEach files).1 := by
  induction files generalizing d with
  | nil => exact .refl d
  | cons f files ih =>
      obtain ⟨path, text⟩ := f
      have hfirst := keeps_writeAtomic d path text.toUTF8
      have hrest := ih (d.writeAtomic path text.toUTF8).disk
      rw [hfirst.home] at hrest
      exact hfirst.trans hrest

/-- A write changes no file but its own and the one beside it. -/
theorem content?_writeAtomic_of_ne {path : FilePath} (content : ByteArray)
    (htarget : p ≠ placeOf d.home path) (hside : p ≠ placeOf d.home (beside path)) :
    (d.writeAtomic path content).disk.content? p = d.content? p := by
  have heffect := writeEffect_writeAtomic d path content
  cases hresult : (d.writeAtomic path content).result with
  | ok u => rw [heffect.files hresult, if_neg htarget, if_neg hside]
  | error e =>
      by_cases hstuck : Stuck d path
      · rw [(heffect.stuck hstuck).2, if_neg hside]
      · exact heffect.refused e hresult hstuck p

theorem content?_writeEach_of_not_mem (h : p ∉ touched d.home files) :
    (d.writeEach files).1.content? p = d.content? p := by
  induction files generalizing d with
  | nil => rfl
  | cons f files ih =>
      obtain ⟨path, text⟩ := f
      rw [touched, List.flatMap_cons, List.mem_append, not_or] at h
      obtain ⟨hfirst, hrest⟩ := h
      simp only [List.mem_cons, List.not_mem_nil, or_false, not_or] at hfirst
      have hhome := (keeps_writeAtomic d path text.toUTF8).home
      have hafter : p ∉ touched (d.writeAtomic path text.toUTF8).disk.home files := by
        rwa [hhome]
      exact (ih hafter).trans (content?_writeAtomic_of_ne _ hfirst.2 hfirst.1)

theorem read_writeEach {first rest : List (FilePath × String)} {path : FilePath} {text : String}
    (h : (d.writeEach (first ++ (path, text) :: rest)).2[first.length]? = some (.ok ()))
    (hrest : placeOf d.home path ∉ touched d.home rest) :
    (d.writeEach (first ++ (path, text) :: rest)).1.read path = .ok text.toUTF8 := by
  induction first generalizing d with
  | nil =>
      have hok : (d.writeAtomic path text.toUTF8).result = .ok () := Option.some.inj h
      have hhome := (keeps_writeAtomic d path text.toUTF8).home
      refine (keeps_writeEach _ rest).read ?_ (writeAtomic_spec hok).2
      rwa [hhome]
  | cons f first ih =>
      refine ih h ?_
      rwa [(keeps_writeAtomic d f.1 f.2.toUTF8).home]

/-- Of independent files that can all be written each is found, and nothing is left beside them. -/
theorem content?_writeEach (hfiles : Independent d.home files)
    (h : ∀ r ∈ (d.writeEach files).2, r = .ok ()) :
    (∀ f ∈ files, (d.writeEach files).1.content? (placeOf d.home f.1) = some f.2.toUTF8) ∧
    ∀ f ∈ files, (∀ g ∈ files, placeOf d.home (beside f.1) ≠ placeOf d.home g.1) →
      (d.writeEach files).1.content? (placeOf d.home (beside f.1)) = none := by
  induction files generalizing d with
  | nil => exact ⟨nofun, nofun⟩
  | cons f files ih =>
      obtain ⟨path, text⟩ := f
      obtain ⟨hfirst, hrest⟩ := List.pairwise_cons.1 hfiles
      have hok : (d.writeAtomic path text.toUTF8).result = .ok () := h _ List.mem_cons_self
      have hwritten := (writeEffect_writeAtomic d path text.toUTF8).files hok
      have hhome := (keeps_writeAtomic d path text.toUTF8).home
      obtain ⟨hfound, hgone⟩ := ih (d := (d.writeAtomic path text.toUTF8).disk) (by rwa [hhome])
        fun r hr => h r (List.mem_cons_of_mem _ hr)
      have hafter : ∀ p ∉ touched (d.writeAtomic path text.toUTF8).disk.home files,
          ((d.writeAtomic path text.toUTF8).disk.writeEach files).1.content? p = _ :=
        fun p => content?_writeEach_of_not_mem
      simp only [hhome] at hfound hgone hafter
      refine ⟨fun f hf => ?found, fun f hf hnone => ?gone⟩
      case found =>
        rcases List.mem_cons.1 hf with rfl | hf
        · have hapart : placeOf d.home path ∉ touched d.home files := by
            simp only [mem_touched_iff, not_exists, not_and, not_or]
            exact fun g hg => ⟨(hfirst g hg).2.1, (hfirst g hg).1⟩
          exact (hafter _ hapart).trans ((hwritten _).trans (if_pos rfl))
        · exact hfound f hf
      case gone =>
        have hothers := fun g hg => hnone g (List.mem_cons_of_mem _ hg)
        rcases List.mem_cons.1 hf with rfl | hf
        · by_cases hbeside : ∃ g ∈ files, placeOf d.home (beside path) = placeOf d.home (beside g.1)
          · obtain ⟨g, hg, hsame⟩ := hbeside
            dsimp only at hothers ⊢
            rw [hsame] at hothers ⊢
            exact hgone g hg hothers
          · have hapart : placeOf d.home (beside path) ∉ touched d.home files := by
              simp only [mem_touched_iff, not_exists, not_and, not_or]
              exact fun g hg => ⟨fun hsame => hbeside ⟨g, hg, hsame⟩, hothers g hg⟩
            refine (hafter _ hapart).trans ((hwritten _).trans ?_)
            rw [if_neg (hnone _ List.mem_cons_self), if_pos rfl]
        · exact hgone f hf hothers

theorem Independent.perm {home : Place} {files' : List (FilePath × String)}
    (h : Independent home files) (hperm : files'.Perm files) : Independent home files' := by
  refine (hperm.pairwise_iff ?_).2 h
  rintro f g ⟨hne, hfg, hgf⟩
  exact ⟨hne.symm, hgf.symm, hfg.symm⟩

/-- Independent files that can be written in two orders leave the same files in both. -/
theorem sameFiles_writeEach {files' : List (FilePath × String)} (hfiles : Independent d.home files)
    (hperm : files'.Perm files) (h : ∀ r ∈ (d.writeEach files).2, r = .ok ())
    (h' : ∀ r ∈ (d.writeEach files').2, r = .ok ()) :
    SameFiles (d.writeEach files).1 (d.writeEach files').1 := by
  obtain ⟨hfound, hgone⟩ := content?_writeEach hfiles h
  obtain ⟨hfound', hgone'⟩ := content?_writeEach (hfiles.perm hperm) h'
  intro p
  by_cases htarget : ∃ f ∈ files, p = placeOf d.home f.1
  · obtain ⟨f, hf, rfl⟩ := htarget
    rw [hfound f hf, hfound' f (hperm.mem_iff.2 hf)]
  · by_cases hside : ∃ f ∈ files, p = placeOf d.home (beside f.1)
    · obtain ⟨f, hf, hp⟩ := hside
      obtain rfl := hp.symm
      rw [hgone f hf fun g hg hsame => htarget ⟨g, hg, hsame⟩,
        hgone' f (hperm.mem_iff.2 hf) fun g hg hsame => htarget ⟨g, hperm.mem_iff.1 hg, hsame⟩]
    · have hapart : p ∉ touched d.home files := by
        rw [mem_touched_iff]
        rintro ⟨f, hf, hsame | hsame⟩
        · exact hside ⟨f, hf, hsame⟩
        · exact htarget ⟨f, hf, hsame⟩
      have hapart' : p ∉ touched d.home files' := by
        simpa only [mem_touched_iff, hperm.mem_iff] using hapart
      rw [content?_writeEach_of_not_mem hapart, content?_writeEach_of_not_mem hapart']

/-- A write puts its file to its place and touches at most the one beside it; it touches no other
file exactly if none is lost beside the file and none is left there.  Many writes add up to what
each does. -/
theorem writeAtomic_effect (d : Disk) :
    (∀ path content, WriteEffect d path content (d.writeAtomic path content)) ∧
    ∀ files, SequenceEffect d files (d.writeEach files) := by
  refine ⟨writeEffect_writeAtomic d, fun files => ⟨fun p => content?_writeEach_of_not_mem, ?_, ?_⟩⟩
  · rintro first path text rest rfl hok hrest
    exact read_writeEach hok hrest
  · exact fun hfiles h files' hperm => sameFiles_writeEach hfiles hperm h

end Sequences

/-- A directory with notes, and a draft. -/
def draftDisk : Disk where
  entries := [(["out"], .directory), (["out", "notes.txt"], .file "kept".toUTF8),
    (["main.tmp"], .file "draft".toUTF8)]

/-- In a directory where nothing stands beside it, a file is written and nothing else is touched. -/
theorem writeAtomic_effect_notes :
    (draftDisk.writeAtomic ⟨"out/new/main.rs"⟩ "code".toUTF8).result = .ok () ∧
    Atomic draftDisk ⟨"out/new/main.rs"⟩ "code".toUTF8
      (draftDisk.writeAtomic ⟨"out/new/main.rs"⟩ "code".toUTF8) := by
  have hok : (draftDisk.writeAtomic ⟨"out/new/main.rs"⟩ "code".toUTF8).result = .ok () := by
    decide +kernel
  have heffect := (writeAtomic_effect draftDisk).1 ⟨"out/new/main.rs"⟩ "code".toUTF8
  refine ⟨hok, heffect.atomic_iff.2 ⟨fun _ => Or.inr (by decide +kernel), fun hstuck => ?_⟩⟩
  obtain ⟨e, he⟩ := (heffect.stuck hstuck).1
  cases hok.symm.trans he

/-- A file that stands beside the written one is lost, so that of two files with different paths one
can undo the other; and where a directory stands, a file that cannot be moved is left beside it. -/
theorem write_touches_beside :
    ((draftDisk.writeAtomic ⟨"main.rs"⟩ "code".toUTF8).result = .ok () ∧
      draftDisk.content? ["main.tmp"] = some "draft".toUTF8 ∧
      (draftDisk.writeAtomic ⟨"main.rs"⟩ "code".toUTF8).disk.content? ["main.tmp"] = none) ∧
    ((draftDisk.writeAtomic ⟨"out"⟩ "code".toUTF8).result = .error (.write ⟨"out"⟩ .isDirectory) ∧
      draftDisk.content? ["out.tmp"] = none ∧
      (draftDisk.writeAtomic ⟨"out"⟩ "code".toUTF8).disk.content? ["out.tmp"] =
        some "code".toUTF8) ∧
    (draftDisk.writeEach [(⟨"a.tmp"⟩, "first"), (⟨"a.rs"⟩, "second")]).2 = [.ok (), .ok ()] ∧
    (draftDisk.writeEach [(⟨"a.tmp"⟩, "first"), (⟨"a.rs"⟩, "second")]).1.content? ["a.tmp"] = none ∧
    ¬ ∀ path content, Atomic draftDisk path content (draftDisk.writeAtomic path content) := by
  have hlost : (draftDisk.writeAtomic ⟨"main.rs"⟩ "code".toUTF8).result = .ok () ∧
      draftDisk.content? ["main.tmp"] = some "draft".toUTF8 ∧
      (draftDisk.writeAtomic ⟨"main.rs"⟩ "code".toUTF8).disk.content? ["main.tmp"] = none := by
    decide +kernel
  refine ⟨hlost, by decide +kernel, by decide +kernel, by decide +kernel, fun hatomic => ?_⟩
  obtain ⟨hok, hbefore, hafter⟩ := hlost
  have hkept := (hatomic ⟨"main.rs"⟩ "code".toUTF8).others hok ["main.tmp"]
    (by decide +kernel) _ hbefore
  rw [hafter] at hkept
  cases hkept

end Disk
end ApiContract
