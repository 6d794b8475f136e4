import ApiContract.Target.Generate
import ApiContract.Proofs.Emission
import Mathlib.Logic.Relation

/-!
# What steps on a disk leave as it was

**Input:** a disk, and steps on it that succeed.

A path means the place to which its names lead (`placeOf`); the disk decides only whether it can be
gone there.  Directories stay, so what can be reached stays reachable.

**Results:**

* `Keeps`: what a disk holds at places that are not changed stays, and so do all directories;
* `writeAtomic_spec`: a file that is written can be read, and at most its place and the one beside
  it are changed;
* `read_of_writeAll`: of files that are written one after another, each can be read that no later
  one replaces.
-/

namespace ApiContract
namespace Disk

open Relation (ReflTransGen)

/-! ## Places -/

/-- The place to which names lead. -/
def goTo (p : Place) (names : List String) : Place :=
  names.foldl (fun p name => if name = ".." then p.dropLast else p ++ [name]) p

/-- The place that a path means. -/
def placeOf (home : Place) (path : FilePath) : Place :=
  goTo (if path.isAbsolute then [] else home) path.names

/-- What is kept when the entries at some places are changed. -/
structure Keeps (changed : List Place) (d d' : Disk) : Prop where
  home : d'.home = d.home
  directories : ∀ p, d.at? p = some .directory → d'.at? p = some .directory
  entries : ∀ p ∉ changed, ∀ e, d.at? p = some e → d'.at? p = some e

/-- A path means a place if it is a path, and its names can be followed. -/
theorem place_eq_ok_iff_walk {d : Disk} {path : FilePath} {p : Place} : d.place path = .ok p ↔
    path.text.isEmpty = false ∧ hasNul path = false ∧
      d.walk (if path.isAbsolute then [] else d.home) path.names = .ok p := by
  unfold place
  cases path.text.isEmpty with
  | true => simp
  | false => cases hasNul path <;> simp

namespace Keeps

variable {ps qs : List Place} {d d' d'' : Disk}

theorem refl (d : Disk) : Keeps ps d d :=
  ⟨rfl, fun _ h => h, fun _ _ _ h => h⟩

theorem trans (h : Keeps ps d d') (h' : Keeps qs d' d'') : Keeps (ps ++ qs) d d'' where
  home := h'.home.trans h.home
  directories p hp := h'.directories p (h.directories p hp)
  entries p hp e he := by
    rw [List.mem_append, not_or] at hp
    exact h'.entries p hp.2 e (h.entries p hp.1 e he)

theorem mono (h : Keeps ps d d') (hps : ps ⊆ qs) : Keeps qs d d' :=
  ⟨h.home, h.directories, fun p hp => h.entries p fun hm => hp (hps hm)⟩

/-- What could be reached still can. -/
theorem walk (h : Keeps ps d d') {p q : Place} {names : List String} (hq : d.walk p names = .ok q) :
    d'.walk p names = .ok q := by
  fun_induction Disk.walk d p names with
  | case1 => exact hq
  | case2 => cases hq
  | case3 => cases hq
  | case4 => cases hq
  | case5 p name rest hp hfits ih =>
      rw [Disk.walk, h.directories p hp]
      dsimp only
      rw [if_neg hfits]
      exact ih hq

theorem place (h : Keeps ps d d') {path : FilePath} {p : Place} (hp : d.place path = .ok p) :
    d'.place path = .ok p := by
  obtain ⟨htext, hnul, hwalk⟩ := place_eq_ok_iff_walk.1 hp
  refine place_eq_ok_iff_walk.2 ⟨htext, hnul, ?_⟩
  rw [h.home]
  exact h.walk hwalk

end Keeps

section Steps

variable {d d' : Disk} {p q : Place} {path : FilePath} {content : ByteArray}

theorem walk_eq_ok {names : List String} (h : d.walk p names = .ok q) : q = goTo p names := by
  fun_induction Disk.walk d p names with
  | case1 => exact (Except.ok.inj h).symm
  | case2 => cases h
  | case3 => cases h
  | case4 => cases h
  | case5 p name rest hp hfits ih => exact ih h

theorem place_eq_ok (h : d.place path = .ok p) : p = placeOf d.home path :=
  walk_eq_ok (place_eq_ok_iff_walk.1 h).2.2

/-- The root is a directory. -/
theorem ne_nil_of_not_directory (h : d.at? p ≠ some .directory) : p ≠ [] := by
  rintro rfl
  exact h rfl

theorem at?_put_self (hp : p ≠ []) (e : Entry) : (d.put p e).at? p = some e := by
  rw [at?, if_neg (by simpa using hp)]
  exact Assoc.get?_put_self p e d.entries

theorem at?_put_of_ne (h : q ≠ p) (e : Entry) : (d.put p e).at? q = d.at? q := by
  unfold at?
  split
  · rfl
  · exact Assoc.get?_put_of_ne h e d.entries

theorem at?_drop_self (hp : p ≠ []) : (d.drop p).at? p = none := by
  rw [at?, if_neg (by simpa using hp)]
  exact Assoc.get?_drop_self p d.entries

theorem at?_drop_of_ne (h : q ≠ p) : (d.drop p).at? q = d.at? q := by
  unfold at?
  split
  · rfl
  · exact Assoc.get?_drop_of_ne h d.entries

/-- Only a place that is no directory is given another entry. -/
theorem keeps_put (h : d.at? p ≠ some .directory) (e : Entry) : Keeps [p] d (d.put p e) where
  home := rfl
  directories q hq := by
    have hne : q ≠ p := fun he => h (he ▸ hq)
    rw [at?_put_of_ne hne, hq]
  entries q hq f hf := by
    rw [at?_put_of_ne (List.mem_singleton.not.1 hq), hf]

theorem keeps_drop (h : d.at? p ≠ some .directory) : Keeps [p] d (d.drop p) where
  home := rfl
  directories q hq := by
    have hne : q ≠ p := fun he => h (he ▸ hq)
    rw [at?_drop_of_ne hne, hq]
  entries q hq f hf := by
    rw [at?_drop_of_ne (List.mem_singleton.not.1 hq), hf]

/-! ## Files -/

theorem find_file_iff : d.find path = .ok (p, .file content) ↔
    d.place path = .ok p ∧ d.at? p = some (.file content) ∧ path.endsSilent = false := by
  constructor
  · intro h
    obtain ⟨p', hp', h⟩ := Emit.bind_eq_ok.1 h
    split at h
    · cases h
    · rename_i hat
      split at h
      · cases h
      · rename_i hs
        obtain ⟨rfl, hb⟩ := Prod.mk.inj (Except.ok.inj h)
        obtain rfl := Entry.file.inj hb
        exact ⟨hp', hat, Bool.eq_false_iff.2 hs⟩
    · cases h
  · rintro ⟨hp, hat, hs⟩
    refine Emit.bind_eq_ok.2 ⟨p, hp, ?_⟩
    simp only [hat, hs]
    rfl

theorem read_eq_ok_iff : d.read path = .ok content ↔ ∃ p, d.find path = .ok (p, .file content) := by
  constructor
  · intro h
    obtain ⟨⟨p, e⟩, hfind, h⟩ := Emit.bind_eq_ok.1 h
    cases e with
    | directory => cases h
    | file b =>
        obtain rfl := Except.ok.inj h
        exact ⟨p, hfind⟩
  · rintro ⟨p, hfind⟩
    exact Emit.bind_eq_ok.2 ⟨_, hfind, rfl⟩

/-- What could be read still can if its place is not changed. -/
theorem Keeps.read {ps : List Place} (h : Keeps ps d d') (hp : placeOf d.home path ∉ ps)
    (hr : d.read path = .ok content) : d'.read path = .ok content := by
  obtain ⟨p, hfind⟩ := read_eq_ok_iff.1 hr
  obtain ⟨hplace, hat, hs⟩ := find_file_iff.1 hfind
  obtain rfl := place_eq_ok hplace
  exact read_eq_ok_iff.2 ⟨_, find_file_iff.2 ⟨h.place hplace, h.entries _ hp _ hat, hs⟩⟩

theorem holdsDirectory_iff : d.holdsDirectory p = true ↔ d.at? p = some .directory := by
  rw [holdsDirectory, beq_iff_eq]

/-- A file may be made or replaced in a directory, where no directory is. -/
theorem filePlace_eq_ok_iff : d.filePlace path = .ok p ↔
    d.place path = .ok p ∧ path.endsSilent = false ∧ d.at? p ≠ some .directory ∧
      d.at? p.dropLast = some .directory := by
  constructor
  · intro h
    obtain ⟨q, hq, h⟩ := Emit.bind_eq_ok.1 h
    split at h
    · cases h
    · rename_i hfree
      split at h
      · rename_i haround
        obtain rfl := Except.ok.inj h
        rw [not_or, holdsDirectory_iff] at hfree
        exact ⟨hq, Bool.eq_false_iff.2 hfree.1, hfree.2, holdsDirectory_iff.1 haround⟩
      · cases h
  · rintro ⟨hplace, hs, hfree, haround⟩
    refine Emit.bind_eq_ok.2 ⟨p, hplace, ?_⟩
    rw [if_neg (by simp [hs, holdsDirectory_iff, hfree]), if_pos (holdsDirectory_iff.2 haround)]
    rfl

theorem filePlace_eq_ok (h : d.filePlace path = .ok p) :
    d.place path = .ok p ∧ path.endsSilent = false ∧ d.at? p ≠ some .directory := by
  obtain ⟨hplace, hs, hfree, -⟩ := filePlace_eq_ok_iff.1 h
  exact ⟨hplace, hs, hfree⟩

/-- After a file is put to a place it can be read. -/
theorem read_put (hplace : d.place path = .ok p) (hs : path.endsSilent = false)
    (hfree : d.at? p ≠ some .directory) : (d.put p (.file content)).read path = .ok content :=
  read_eq_ok_iff.2 ⟨p, find_file_iff.2 ⟨(keeps_put hfree _).place hplace,
    at?_put_self (ne_nil_of_not_directory hfree) _, hs⟩⟩

theorem write_eq_ok (h : d.write path content = .ok d') :
    Keeps [placeOf d.home path] d d' ∧ d'.read path = .ok content := by
  obtain ⟨p, hp, h⟩ := Emit.bind_eq_ok.1 h
  obtain rfl := Except.ok.inj h
  obtain ⟨hplace, hs, hfree⟩ := filePlace_eq_ok hp
  refine ⟨?_, read_put hplace hs hfree⟩
  rw [← place_eq_ok hplace]
  exact keeps_put hfree _

theorem targetPlace_eq_ok_iff :
    d.targetPlace path = .ok p ↔ d.filePlace path = .ok p ∧ path.endsInDots = false := by
  constructor
  · intro h
    obtain ⟨_, -, h⟩ := Emit.bind_eq_ok.1 h
    split at h
    · obtain ⟨_, -, h⟩ := Emit.bind_eq_ok.1 h
      cases h
    · rename_i hdots
      split at h
      · cases h
      · exact ⟨h, Bool.eq_false_iff.2 hdots⟩
  · rintro ⟨h, hdots⟩
    obtain ⟨hplace, hs, -⟩ := filePlace_eq_ok h
    refine Emit.bind_eq_ok.2 ⟨p, hplace, ?_⟩
    simpa [hdots, hs] using h

theorem targetPlace_eq_ok (h : d.targetPlace path = .ok p) : d.filePlace path = .ok p :=
  (targetPlace_eq_ok_iff.1 h).1

/-- A file that is moved keeps its content, and its old place is the only other one that changes. -/
theorem rename_eq_ok {old new : FilePath} (h : d.rename old new = .ok d')
    (hold : d.read old = .ok content) :
    Keeps [placeOf d.home old, placeOf d.home new] d d' ∧ d'.read new = .ok content := by
  obtain ⟨p, hfind⟩ := read_eq_ok_iff.1 hold
  obtain ⟨hp, hat, -⟩ := find_file_iff.1 hfind
  obtain ⟨e, he, h⟩ := Emit.bind_eq_ok.1 h
  obtain rfl := Except.ok.inj (he.symm.trans hfind)
  obtain ⟨q, hq, h⟩ := Emit.bind_eq_ok.1 h
  obtain rfl := Except.ok.inj h
  obtain ⟨hplace, hs, hfree⟩ := filePlace_eq_ok (targetPlace_eq_ok hq)
  rw [← place_eq_ok hp, ← place_eq_ok hplace]
  split
  · rename_i hpq
    exact ⟨.refl d, read_eq_ok_iff.2 ⟨q, find_file_iff.2 ⟨hplace, hpq ▸ hat, hs⟩⟩⟩
  · rename_i hpq
    have hdrop : Keeps [p] d (d.drop p) := keeps_drop (by simp [hat])
    have hfree' : (d.drop p).at? q ≠ some .directory := by
      rwa [at?_drop_of_ne (Ne.symm hpq)]
    exact ⟨hdrop.trans (keeps_put hfree' _), read_put (hdrop.place hplace) hs hfree'⟩

/-! ## Directories -/

/-- A directory is made where nothing stood. -/
def Makes (d d' : Disk) : Prop :=
  ∃ p, d.at? p = none ∧ d' = d.put p .directory

theorem makeDirectory_eq_ok (h : d.makeDirectory path = .ok d') : ReflTransGen Makes d d' := by
  obtain ⟨p, -, h⟩ := Emit.bind_eq_ok.1 h
  split at h
  · obtain rfl := Except.ok.inj h
    exact .refl
  · cases h
  · rename_i hnone
    split at h
    · obtain rfl := Except.ok.inj h
      exact .single ⟨p, hnone, rfl⟩
    · cases h

theorem makes_settle {r : Except Fault Disk} (h : ∀ d', r = .ok d' → ReflTransGen Makes d d') :
    ReflTransGen Makes d (d.settle r).1 := by
  cases r with
  | ok d' => exact h d' rfl
  | error e => exact .refl

/-- Directories are made one after another, also when one cannot be made in the end. -/
theorem makes_makeDirectoriesWithin (bound : Nat) (d : Disk) (path : FilePath) :
    ReflTransGen Makes d (makeDirectoriesWithin bound d path).1 := by
  fun_induction makeDirectoriesWithin bound d path with
  | case1 => exact .refl
  | case2 => exact .refl
  | case3 bound d path parent hparent hmissing d₁ hd₁ ih =>
      rw [hd₁] at ih
      exact ih.trans (makes_settle fun _ => makeDirectory_eq_ok)
  | case4 bound d path parent hparent hmissing hfailed ih => exact ih
  | case5 => exact makes_settle fun _ => makeDirectory_eq_ok

theorem Makes.keeps (h : Makes d d') : Keeps [] d d' := by
  obtain ⟨p, hnone, rfl⟩ := h
  refine ⟨rfl, (keeps_put (by simp [hnone]) _).directories, fun q _ e he => ?_⟩
  have hne : q ≠ p := by
    rintro rfl
    rw [hnone] at he
    cases he
  rwa [at?_put_of_ne hne]

/-- Directories that are made leave everything else as it was. -/
theorem keeps_of_makes (h : ReflTransGen Makes d d') : Keeps [] d d' := by
  induction h with
  | refl => exact .refl d
  | tail _ hmake ih => exact ih.trans hmake.keeps

end Steps

/-! ## Writing -/

section Writing

variable {d : Disk} {path : FilePath} {content : ByteArray}

theorem andThen_eq_ok {α : Type} {w : Written Unit} {next : Disk → Written α} {a : α}
    (h : (andThen w next).result = .ok a) :
    w.result = .ok () ∧ andThen w next = next w.disk := by
  unfold andThen at h ⊢
  cases hw : w.result with
  | ok u => exact ⟨rfl, rfl⟩
  | error e =>
      rw [hw] at h
      cases h

theorem attempt_eq_ok {r : Except Fault Disk} (h : (d.attempt path r).result = .ok ()) :
    r = .ok (d.attempt path r).disk := by
  cases r with
  | ok d' => rfl
  | error e => cases h

theorem makes_makeParent (d : Disk) (path : FilePath) :
    ReflTransGen Makes d (d.makeParent path).disk := by
  unfold makeParent
  split
  · split
    · exact .refl
    · exact makes_makeDirectoriesWithin _ _ _
  · exact .refl

/-- The path of a file before it is moved to its place. -/
def beside (path : FilePath) : FilePath :=
  path.withExtension "tmp"

/-- A file is written beside its place and moved there, after directories have been made. -/
theorem writeAtomic_eq_ok (h : (d.writeAtomic path content).result = .ok ()) :
    ∃ d₁ d₂, ReflTransGen Makes d d₁ ∧ d₁.write (beside path) content = .ok d₂ ∧
      d₂.rename (beside path) path = .ok (d.writeAtomic path content).disk := by
  have hstart : d.writeAtomic path content = andThen (d.makeParent path) fun d =>
      andThen (d.attempt (beside path) (d.write (beside path) content)) fun d =>
        d.attempt path (d.rename (beside path) path) := rfl
  rw [hstart] at h ⊢
  obtain ⟨-, he⟩ := andThen_eq_ok h
  rw [he] at h ⊢
  obtain ⟨hwrite, he'⟩ := andThen_eq_ok h
  rw [he'] at h ⊢
  exact ⟨_, _, makes_makeParent _ _, attempt_eq_ok hwrite, attempt_eq_ok h⟩

theorem writeAtomic_spec (h : (d.writeAtomic path content).result = .ok ()) :
    Keeps [placeOf d.home (beside path), placeOf d.home path] d (d.writeAtomic path content).disk ∧
      (d.writeAtomic path content).disk.read path = .ok content := by
  obtain ⟨d₁, d₂, hmakes, hwrite, hmove⟩ := writeAtomic_eq_ok h
  have hfirst := keeps_of_makes hmakes
  obtain ⟨hsecond, hread⟩ := write_eq_ok hwrite
  obtain ⟨hthird, hmoved⟩ := rename_eq_ok hmove hread
  rw [hsecond.home, hfirst.home] at hthird
  rw [hfirst.home] at hsecond
  exact ⟨((hfirst.trans hsecond).trans hthird).mono (by simp), hmoved⟩

theorem writeAll_cons_eq_ok {text : String} {rest : List (FilePath × String)}
    (h : (d.writeAll ((path, text) :: rest)).result = .ok ()) :
    (d.writeAtomic path text.toUTF8).result = .ok () ∧
      d.writeAll ((path, text) :: rest) = (d.writeAtomic path text.toUTF8).disk.writeAll rest := by
  rw [writeAll] at h ⊢
  exact andThen_eq_ok h

/-- The places that are changed when files are written. -/
def touched (home : Place) (files : List (FilePath × String)) : List Place :=
  files.flatMap fun f => [placeOf home (beside f.1), placeOf home f.1]

theorem keeps_writeAll {files : List (FilePath × String)} (h : (d.writeAll files).result = .ok ()) :
    Keeps (touched d.home files) d (d.writeAll files).disk := by
  induction files generalizing d with
  | nil => exact .refl d
  | cons f files ih =>
      obtain ⟨path, text⟩ := f
      obtain ⟨hfirst, he⟩ := writeAll_cons_eq_ok h
      rw [he] at h ⊢
      obtain ⟨hkeeps, -⟩ := writeAtomic_spec hfirst
      have hrest := ih h
      rw [hkeeps.home] at hrest
      exact hkeeps.trans hrest

/-- A file can be read after all have been written if nothing that is written later replaces it. -/
theorem read_of_writeAll {first rest : List (FilePath × String)} {text : String}
    (h : (d.writeAll (first ++ (path, text) :: rest)).result = .ok ())
    (hrest : placeOf d.home path ∉ touched d.home rest) :
    (d.writeAll (first ++ (path, text) :: rest)).disk.read path = .ok text.toUTF8 := by
  induction first generalizing d with
  | nil =>
      rw [List.nil_append] at h ⊢
      obtain ⟨hfirst, he⟩ := writeAll_cons_eq_ok h
      rw [he] at h ⊢
      obtain ⟨hkeeps, hread⟩ := writeAtomic_spec hfirst
      refine (keeps_writeAll h).read ?_ hread
      rwa [hkeeps.home]
  | cons f first ih =>
      obtain ⟨path', text'⟩ := f
      rw [List.cons_append] at h ⊢
      obtain ⟨hfirst, he⟩ := writeAll_cons_eq_ok h
      rw [he] at h ⊢
      obtain ⟨hkeeps, -⟩ := writeAtomic_spec hfirst
      refine ih h ?_
      rwa [hkeeps.home]

end Writing

end Disk
end ApiContract
