import ApiContract.Proofs.Disks
import ApiContract.Proofs.FilePaths
import Mathlib.Data.List.Induction
import Mathlib.Data.List.TakeWhile

/-!
# The files of modules

**Input:** a module tree whose modules have names without slashes and dots, none of them that of the
file which a module with others below it has.

**Results:**

* `pathOf_eq`: the file of a module stands in the directory of those around it;
* `placeOf_join_pathOf_inj`, `placeOf_ne_beside`: in an output directory, modules with different
  places have different files, and none of them stands where another is written first;
* `read_of_modules`: of modules with one place, the last one is found in its file.
-/

namespace ApiContract
namespace ModuleTree

open FilePath (IsName IsStem asStem cutName isStem_asStem join_eq names_append
    names_of_isName ofChars
  startLength startLength_of_isName withExtension_append)
open Disk (beside goTo placeOf)

/-- A name without slashes and dots. -/
structure Plain (s : List Char) : Prop where
  ne_nil : s ≠ []
  slash_not_mem : '/' ∉ s
  dot_not_mem : '.' ∉ s

instance (s : List Char) : Decidable (Plain s) :=
  decidable_of_iff (s ≠ [] ∧ '/' ∉ s ∧ '.' ∉ s)
    ⟨fun ⟨hne, hslash, hdot⟩ => ⟨hne, hslash, hdot⟩,
      fun h => ⟨h.ne_nil, h.slash_not_mem, h.dot_not_mem⟩⟩

section Plain

variable {s extension : List Char}

theorem Plain.isName (h : Plain s) : IsName s where
  noSlash := h.slash_not_mem
  notSilent := by
    have hdot : s ≠ ['.'] := by
      rintro rfl
      exact h.dot_not_mem List.mem_cons_self
    simpa [FilePath.isSilent] using ⟨h.ne_nil, hdot⟩
  notParent := by
    rintro rfl
    exact h.dot_not_mem List.mem_cons_self

/-- A name with an extension. -/
theorem Plain.isName_append (h : Plain s) (he : Plain extension) :
    IsName (s ++ '.' :: extension) where
  noSlash := by
    simp [h.slash_not_mem, he.slash_not_mem]
  notSilent := by
    obtain ⟨c, rest, rfl⟩ := List.exists_cons_of_ne_nil h.ne_nil
    simp [FilePath.isSilent]
  notParent := by
    intro heq
    have hname := List.length_pos_iff.2 h.ne_nil
    have hextension := List.length_pos_iff.2 he.ne_nil
    have hlength := congrArg List.length heq
    simp only [List.length_append, List.length_cons, List.length_nil] at hlength
    omega

theorem Plain.ne_dot (h : Plain s) : ∀ c ∈ s.reverse, decide (c ≠ '.') = true := by
  intro c hc
  refine decide_eq_true fun he => ?_
  exact h.dot_not_mem (he ▸ List.mem_reverse.1 hc)

theorem Plain.cutName_eq (h : Plain s) : (cutName s).1 = s := by
  have hdrop : s.reverse.dropWhile (fun c => decide (c ≠ '.')) = [] :=
    List.dropWhile_eq_nil_iff.2 h.ne_dot
  unfold cutName
  dsimp only
  rw [hdrop]
  rfl

/-- The extension is cut off. -/
theorem Plain.cutName_append (h : Plain s) (he : Plain extension) :
    (cutName (s ++ '.' :: extension)).1 = s := by
  have hdrop : (s ++ '.' :: extension).reverse.dropWhile (fun c => decide (c ≠ '.')) =
      '.' :: s.reverse := by
    rw [List.reverse_append, List.reverse_cons, List.append_assoc,
      List.dropWhile_append_of_pos he.ne_dot]
    rfl
  unfold cutName
  dsimp only
  rw [hdrop, List.drop_one, List.tail_cons, List.reverse_reverse, if_neg (by simpa using h.ne_nil)]

theorem Plain.startLength_append (h : Plain s) (rest : List Char) :
    startLength (s ++ rest) = 0 := by
  obtain ⟨c, t, rfl⟩ := List.exists_cons_of_ne_nil h.ne_nil
  have hslash := h.slash_not_mem
  have hdot := h.dot_not_mem
  rw [List.mem_cons, not_or] at hslash hdot
  rw [List.cons_append]
  unfold startLength
  split <;> simp_all

end Plain

/-! ## Directories -/

/-- Directories, one in the other, with a slash behind each. -/
def directories (names : List String) : List Char :=
  names.flatMap fun n => n.toList ++ ['/']

section Directories

variable {names : List String} {n : List Char}

theorem isStem_directories (names : List String) : IsStem (directories names) := by
  induction names with
  | nil => exact Or.inl rfl
  | cons n names ih => exact IsStem.append (Or.inr ⟨n.toList, rfl⟩) ih

theorem startLength_directories (h : ∀ n ∈ names, Plain n.toList) (hn : IsName n) :
    startLength (directories names ++ n) = 0 := by
  cases names with
  | nil => exact startLength_of_isName hn
  | cons d names =>
      have hfirst : directories (d :: names) ++ n = d.toList ++
          ('/' :: (directories names ++ n)) := by
        simp [directories]
      rw [hfirst]
      exact (h d List.mem_cons_self).startLength_append _

theorem names_directories (h : ∀ n ∈ names, Plain n.toList) (hn : IsName n) :
    (ofChars (directories names ++ n)).names = names ++ [String.ofList n] := by
  induction names with
  | nil => exact names_of_isName hn
  | cons d names ih =>
      rw [List.forall_mem_cons] at h
      obtain ⟨hd, hrest⟩ := h
      have hfirst : directories (d :: names) ++ n = (d.toList ++ ['/']) ++
          (directories names ++ n) := by
        simp [directories]
      have hone : (ofChars (d.toList ++ ['/'])).names = [d] := by
        have hpieces : Text.pieces (· = '/') (d.toList ++ ['/']) = [d.toList, []] := by
          rw [pieces_eq_splitOnP, List.splitOnP_append_cons _ _ (by decide), ← pieces_eq_splitOnP,
            FilePath.body_of_isName hd.isName]
          rfl
        rw [FilePath.names, FilePath.body, ofChars, String.toList_ofList, hd.startLength_append,
          List.drop_zero, hpieces, List.filter_cons_of_pos (by simp [hd.isName.notSilent])]
        exact congrArg (fun name => [name]) String.ofList_toList
      rw [hfirst, names_append (Or.inr ⟨_, rfl⟩) (startLength_directories hrest hn), hone, ih hrest]
      rfl

end Directories

/-! ## Places -/

section Places

variable {home : Place} {stem n : List Char} {names : List String}

theorem goTo_append (p : Place) {names more : List String} :
    goTo p (names ++ more) = goTo (goTo p names) more :=
  List.foldl_append

/-- Without a name for the parent, each name leads further down. -/
theorem goTo_eq (p : Place) (h : ".." ∉ names) : goTo p names = p ++ names := by
  induction names generalizing p with
  | nil => exact (List.append_nil p).symm
  | cons n names ih =>
      rw [List.mem_cons, not_or] at h
      have hstep : goTo p (n :: names) = goTo (p ++ [n]) names :=
        congrArg (goTo · names) (if_neg (Ne.symm h.1))
      rw [hstep, ih _ h.2, List.append_assoc]
      rfl

theorem isAbsolute_eq_false {t : List Char} (h : startLength t = 0) :
    (ofChars t).isAbsolute = false := by
  refine Bool.eq_false_iff.2 fun ha => ?_
  have hhead : t.head? = some '/' := by simpa [FilePath.isAbsolute, ofChars] using ha
  obtain ⟨rest, rfl⟩ : ∃ rest, t = '/' :: rest := by
    cases t with
    | nil => cases hhead
    | cons c rest => exact ⟨rest, by rw [Option.some.inj hhead]⟩
  simp [startLength] at h

/-- The place of a file in directories below what a stem means. -/
theorem placeOf_eq (hs : IsStem stem) (hnames : ∀ n ∈ names, Plain n.toList) (hn : IsName n) :
    placeOf home (ofChars (stem ++ (directories names ++ n))) =
      placeOf home (ofChars stem) ++ (names ++ [String.ofList n]) := by
  have ht := startLength_directories hnames hn
  have habsolute : (ofChars (stem ++ (directories names ++ n))).isAbsolute =
      (ofChars stem).isAbsolute := by
    by_cases hstem : stem = []
    · subst hstem
      rw [List.nil_append, isAbsolute_eq_false ht]
      rfl
    · exact FilePath.isAbsolute_ofChars_append hstem
  have hparent : ".." ∉ names ++ [String.ofList n] := by
    intro hm
    rcases List.mem_append.1 hm with hm | hm
    · exact (hnames _ hm).isName.notParent rfl
    · refine hn.notParent ?_
      rw [← String.toList_ofList (l := n), ← List.mem_singleton.1 hm]
      rfl
  rw [placeOf, placeOf, habsolute, names_append hs ht, names_directories hnames hn, goTo_append,
    goTo_eq _ hparent]

end Places

/-! ## Files -/

/-- The directories around the file of a module, and its name without the extension. -/
def spotOf (t : ModuleTree) (m : SourceModule) : List String × String :=
  if m.place.isEmpty || !(t.children m.place).isEmpty then (m.place, "mod")
  else (m.place.dropLast, m.place.getLastD "")

/-- The path of modules inside each other. -/
def placePath (place : List String) : FilePath :=
  place.foldl (fun p name => p.join ⟨name⟩) ⟨""⟩

section Files

variable {names : List String} {name : String}

theorem asStem_ofChars {stem n : List Char} (hn : IsName n) :
    (ofChars (stem ++ n)).asStem = stem ++ (n ++ ['/']) := by
  have hne : n ≠ [] := by
    rintro rfl
    cases hn.notSilent
  have htext : (ofChars (stem ++ n)).text.toList = stem ++ n := String.toList_ofList
  have hempty : ¬ (ofChars (stem ++ n)).text.isEmpty = true := by
    rw [String.isEmpty_iff, ← String.toList_eq_nil_iff, htext]
    simp [hne]
  have hslash : (stem ++ n).getLast? ≠ some '/' := by
    rw [List.getLast?_append_of_ne_nil _ hne]
    exact fun hlast => hn.noSlash (List.mem_of_getLast? hlast)
  rw [asStem, htext, if_neg (by rw [not_or]; exact ⟨hempty, hslash⟩), List.append_assoc]

theorem join_of_isName (p : FilePath) (hname : IsName name.toList) :
    p.join ⟨name⟩ = ofChars (p.asStem ++ name.toList) := by
  refine join_eq ?_
  have habsolute := isAbsolute_eq_false (startLength_of_isName hname)
  rwa [ofChars, String.ofList_toList] at habsolute

theorem asStem_placePath (h : ∀ n ∈ names, Plain n.toList) :
    (placePath names).asStem = directories names := by
  induction names using List.reverseRecOn with
  | nil => rfl
  | append_singleton names name ih =>
      have hname := (h name (by simp)).isName
      have hlast : placePath (names ++ [name]) = (placePath names).join ⟨name⟩ := List.foldl_append
      rw [hlast, join_of_isName _ hname, asStem_ofChars hname,
        ih fun n hn => h n (List.mem_append_left _ hn)]
      simp [directories]

theorem placePath_append (h : ∀ n ∈ names ++ [name], Plain n.toList) :
    placePath (names ++ [name]) = ofChars (directories names ++ name.toList) := by
  have hlast : placePath (names ++ [name]) = (placePath names).join ⟨name⟩ := List.foldl_append
  rw [hlast, join_of_isName _ (h name (by simp)).isName,
    asStem_placePath fun n hn => h n (List.mem_append_left _ hn)]

theorem plain_mod : Plain "mod".toList := by
  decide

theorem isName_rs {s : List Char} (h : Plain s) : IsName (s ++ ".rs".toList) :=
  h.isName_append (by decide)

/-- A module without others below it has a file in the directories around it. -/
theorem exists_of_leaf {t : ModuleTree} {m : SourceModule}
    (h : ¬ (m.place.isEmpty || !(t.children m.place).isEmpty) = true) :
    ∃ before name, m.place = before ++ [name] := by
  refine (List.eq_nil_or_concat' m.place).resolve_left fun hnil => ?_
  rw [hnil] at h
  exact h rfl

theorem spotOf_spec (t : ModuleTree) (m : SourceModule) : spotOf t m = (m.place, "mod") ∨
    ∃ before name, m.place = before ++ [name] ∧ spotOf t m = (before, name) := by
  unfold spotOf
  split
  · exact Or.inl rfl
  · rename_i hleaf
    obtain ⟨before, name, hplace⟩ := exists_of_leaf hleaf
    exact Or.inr ⟨before, name, hplace, by simp [hplace]⟩

/-- The file of a module stands in the directories of its spot. -/
theorem pathOf_eq (t : ModuleTree) {m : SourceModule} (h : ∀ n ∈ m.place, Plain n.toList) :
    t.pathOf m = ofChars (directories (spotOf t m).1 ++
      ((spotOf t m).2.toList ++ ".rs".toList)) := by
  have hpath : t.pathOf m = if m.place.isEmpty || !(t.children m.place).isEmpty then
      (placePath m.place).join ⟨"mod.rs"⟩ else (placePath m.place).withExtension "rs" := rfl
  rw [hpath, spotOf]
  split
  · have htext : "mod.rs".toList = "mod".toList ++ ".rs".toList := by decide
    have hmod : IsName "mod.rs".toList := htext ▸ isName_rs plain_mod
    rw [join_of_isName _ hmod, asStem_placePath h, htext]
  · rename_i hleaf
    obtain ⟨before, name, hplace⟩ := exists_of_leaf hleaf
    rw [hplace] at h ⊢
    have hname := h name (by simp)
    rw [placePath_append h, withExtension_append (isStem_directories _) hname.isName,
      hname.cutName_eq]
    simp

end Files

/-! ## Different modules -/

/-- A place whose names have no slashes and dots, none of them that of the file of a module with
others below it. -/
structure Named (place : List String) : Prop where
  plain : ∀ n ∈ place, Plain n.toList
  ne_mod : ∀ n ∈ place, n ≠ "mod"

instance (place : List String) : Decidable (Named place) :=
  decidable_of_iff ((∀ n ∈ place, Plain n.toList) ∧ ∀ n ∈ place, n ≠ "mod")
    ⟨fun h => ⟨h.1, h.2⟩, fun h => ⟨h.plain, h.ne_mod⟩⟩

section Different

variable {t : ModuleTree} {m m' : SourceModule} {home : Place}

theorem plain_spotOf (h : Named m.place) :
    (∀ n ∈ (spotOf t m).1, Plain n.toList) ∧ Plain (spotOf t m).2.toList := by
  rcases spotOf_spec t m with hspot | ⟨before, name, hplace, hspot⟩
  · rw [hspot]
    exact ⟨h.plain, plain_mod⟩
  · rw [hspot]
    have hplain := h.plain
    rw [hplace] at hplain
    exact ⟨fun n hn => hplain n (List.mem_append_left _ hn), hplain name (by simp)⟩

/-- Two modules with one spot have one place. -/
theorem spotOf_inj (h : Named m.place) (h' : Named m'.place) :
    spotOf t m = spotOf t m' ↔ m.place = m'.place := by
  constructor
  · intro hspots
    rcases spotOf_spec t m with hspot | ⟨before, name, hplace, hspot⟩ <;>
      rcases spotOf_spec t m' with hspot' | ⟨before', name', hplace', hspot'⟩ <;>
      rw [hspot, hspot', Prod.mk.injEq] at hspots
    · exact hspots.1
    · exact absurd hspots.2.symm (h'.ne_mod name' (by simp [hplace']))
    · exact absurd hspots.2 (h.ne_mod name (by simp [hplace]))
    · rw [hplace, hplace', hspots.1, hspots.2]
  · intro hplace
    rw [spotOf, spotOf, hplace]

/-- A file below an output directory, and its name with the extension. -/
theorem join_pathOf (h : Named m.place) (out : FilePath) : out.join (t.pathOf m) =
    ofChars (out.asStem ++ (directories (spotOf t m).1 ++
      ((spotOf t m).2.toList ++ ".rs".toList))) := by
  obtain ⟨hdirs, hname⟩ := plain_spotOf (t := t) h
  rw [pathOf_eq t h.plain,
    join_eq (isAbsolute_eq_false (startLength_directories hdirs (isName_rs hname)))]
  exact congrArg (fun s => ofChars (out.asStem ++ s)) String.toList_ofList

theorem placeOf_join_pathOf (h : Named m.place) (out : FilePath) :
    placeOf home (out.join (t.pathOf m)) = placeOf home (ofChars out.asStem) ++
      ((spotOf t m).1 ++ [(spotOf t m).2 ++ ".rs"]) := by
  obtain ⟨hdirs, hname⟩ := plain_spotOf (t := t) h
  rw [join_pathOf h, placeOf_eq (isStem_asStem out) hdirs (isName_rs hname), String.ofList_append,
    String.ofList_toList, String.ofList_toList]

theorem placeOf_beside (h : Named m.place) (out : FilePath) :
    placeOf home (beside (out.join (t.pathOf m))) = placeOf home (ofChars out.asStem) ++
      ((spotOf t m).1 ++ [(spotOf t m).2 ++ ".tmp"]) := by
  obtain ⟨hdirs, hname⟩ := plain_spotOf (t := t) h
  have htmp : IsName ((spotOf t m).2.toList ++ ".tmp".toList) :=
    hname.isName_append (by decide)
  have hcut : (cutName ((spotOf t m).2.toList ++ ".rs".toList)).1 = (spotOf t m).2.toList :=
    hname.cutName_append (by decide)
  rw [join_pathOf h, beside, ← List.append_assoc,
    withExtension_append (IsStem.append (isStem_asStem out) (isStem_directories _))
      (isName_rs hname),
    hcut, List.append_assoc]
  refine (placeOf_eq (isStem_asStem out) hdirs htmp).trans ?_
  rw [String.ofList_append, String.ofList_toList, String.ofList_toList]

/-- Files of different modules stand at different places. -/
theorem placeOf_join_pathOf_inj (h : Named m.place) (h' : Named m'.place) (out : FilePath) :
    placeOf home (out.join (t.pathOf m)) = placeOf home (out.join (t.pathOf m')) ↔
      m.place = m'.place := by
  rw [placeOf_join_pathOf h, placeOf_join_pathOf h', List.append_cancel_left_eq,
    ← spotOf_inj (t := t) h h', Prod.ext_iff]
  simp

/-- No file stands where one is before it is moved to its place. -/
theorem placeOf_ne_beside (h : Named m.place) (h' : Named m'.place) (out : FilePath) :
    placeOf home (out.join (t.pathOf m)) ≠ placeOf home (beside (out.join (t.pathOf m'))) := by
  rw [placeOf_join_pathOf h, placeOf_beside h', ne_eq, List.append_cancel_left_eq]
  intro heq
  have hlast := congrArg (fun ns => (ns.getLast?.map String.toList).bind List.getLast?) heq
  simp at hlast

theorem pathOf_inj (h : Named m.place) (h' : Named m'.place) :
    t.pathOf m = t.pathOf m' ↔ m.place = m'.place := by
  constructor
  · intro hpath
    have hplaces : placeOf [] (FilePath.join ⟨""⟩ (t.pathOf m)) =
        placeOf [] (FilePath.join ⟨""⟩ (t.pathOf m')) := by rw [hpath]
    exact (placeOf_join_pathOf_inj h h' _).1 hplaces
  · intro hplace
    rw [pathOf_eq t h.plain, pathOf_eq t h'.plain, (spotOf_inj h h').2 hplace]

end Different

/-! ## Written modules -/

section Written

variable {t : ModuleTree} {d : Disk} {out : FilePath} {first rest : List SourceModule}
  {m : SourceModule}

/-- The files of a tree below an output directory, with their text. -/
def below (t : ModuleTree) (out : FilePath) : List (FilePath × String) :=
  t.files.map fun f => (out.join f.path, f.text)

/-- The text of a module in a file of its own. -/
def textOf (t : ModuleTree) (m : SourceModule) : String :=
  fileText (t.declarations m.place ++ m.code)

theorem files_eq (t : ModuleTree) :
    (t.files.map fun f => (f.path, f.text)) = t.modules.map fun m => (t.pathOf m, t.textOf m) := by
  rw [files, List.map_map]
  rfl

theorem below_eq (t : ModuleTree) (out : FilePath) :
    t.below out = t.modules.map fun m => (out.join (t.pathOf m), t.textOf m) := by
  rw [below, files, List.map_map]
  rfl

/-- The last module with a place is the one that is found in its file. -/
theorem read_of_modules (h : (d.writeAll (t.below out)).result = .ok ())
    (hnamed : ∀ m ∈ t.modules, Named m.place) (hmods : t.modules = first ++ m :: rest)
    (hlast : ∀ m' ∈ rest, m'.place ≠ m.place) :
    (d.writeAll (t.below out)).disk.read (out.join (t.pathOf m)) = .ok (t.textOf m).toUTF8 := by
  have hm : Named m.place := hnamed m (by simp [hmods])
  rw [below_eq, hmods, List.map_append, List.map_cons] at h ⊢
  refine Disk.read_of_writeAll h fun htouched => ?_
  obtain ⟨f, hf, hplace⟩ := List.mem_flatMap.1 htouched
  obtain ⟨m', hm', rfl⟩ := List.mem_map.1 hf
  have hnamed' : Named m'.place := hnamed m' (by simp [hmods, hm'])
  simp only [List.mem_cons, List.not_mem_nil, or_false] at hplace
  rcases hplace with hplace | hplace
  · exact placeOf_ne_beside hm hnamed' out hplace
  · exact hlast m' hm' ((placeOf_join_pathOf_inj hm hnamed' out).1 hplace).symm

/-- Paths are different exactly if the places of modules are. -/
theorem nodup_paths_iff (hnamed : ∀ m ∈ t.modules, Named m.place) :
    (t.files.map (·.path)).Nodup ↔ (t.modules.map (·.place)).Nodup := by
  rw [files, List.map_map, List.Nodup, List.Nodup, List.pairwise_map, List.pairwise_map]
  exact List.Pairwise.iff_of_mem fun hm hm' => not_congr (pathOf_inj (hnamed _ hm) (hnamed _ hm'))

end Written

end ModuleTree

/-! ## Rendered modules -/

namespace Target

section Rendered

variable {t : Target} {m : Metadata} {inspect : Inspector} {files : List (FilePath × String)}

theorem inspected_eq_ok {c c' : Code} :
    inspected inspect c = .ok c' ↔ inspect c = none ∧ c = c' := by
  unfold inspected
  cases inspect c with
  | none => simp
  | some cause => simp

/-- A target that is no bundle has the files of its modules, with whose code nothing is wrong. -/
theorem renderWith_files_eq_ok (ht : t.bundle = false) : t.renderWith inspect m = .ok files ↔
    ∃ tree, ModuleTree.ofMetadata m t.client = .ok tree ∧
      (∀ f ∈ tree.files, inspect f.code = none) ∧
      files = tree.files.map fun f => (f.path, f.text) := by
  have hfile : ∀ (f : CodeFile) (b : FilePath × String),
      (inspected inspect f.code >>= fun c => pure (f.path, fileText c)) = .ok b ↔
        inspect f.code = none ∧ (f.path, f.text) = b := by
    intro f b
    rw [Emit.bind_eq_ok]
    constructor
    · rintro ⟨c, hc, hb⟩
      obtain ⟨hnone, rfl⟩ := inspected_eq_ok.1 hc
      exact ⟨hnone, Except.ok.inj hb⟩
    · rintro ⟨hnone, rfl⟩
      exact ⟨f.code, inspected_eq_ok.2 ⟨hnone, rfl⟩, rfl⟩
  have hfiles : ∀ fs : List CodeFile,
      List.Forall₂ (fun f b => inspect f.code = none ∧ (f.path, f.text) = b) fs files ↔
        (∀ f ∈ fs, inspect f.code = none) ∧ files = fs.map fun f => (f.path, f.text) := by
    intro fs
    rw [List.forall₂_and_left, eq_comm (a := files), ← List.forall₂_eq_eq_eq,
      List.forall₂_map_left_iff]
  rw [renderWith, Emit.bind_eq_ok]
  simp only [ht, Bool.false_eq_true, if_false, Emit.mapM_eq_ok, hfile, hfiles]

/-- A target that is no bundle has its files below its output. -/
theorem placed_files (ht : t.bundle = false) (tree : ModuleTree) :
    t.placed (tree.files.map fun f => (f.path, f.text)) = tree.below t.output := by
  rw [placed, ht, ModuleTree.below]
  simp

/-- A bundle is one file, with whose code nothing is wrong. -/
theorem renderWith_bundle_eq_ok (ht : t.bundle = true) : t.renderWith inspect m = .ok files ↔
    ∃ tree code, ModuleTree.ofMetadata m t.client = .ok tree ∧ tree.bundle = .ok code ∧
      inspect code = none ∧ files = [(t.output, fileText code)] := by
  rw [renderWith, Emit.bind_eq_ok]
  refine exists_congr fun tree => ?_
  rw [if_pos ht]
  constructor
  · rintro ⟨htree, h⟩
    obtain ⟨code, hcode, h⟩ := Emit.bind_eq_ok.1 h
    obtain ⟨code', hchecked, h⟩ := Emit.bind_eq_ok.1 h
    obtain ⟨hnone, rfl⟩ := inspected_eq_ok.1 hchecked
    exact ⟨code, htree, hcode, hnone, (Except.ok.inj h).symm⟩
  · rintro ⟨code, htree, hcode, hnone, rfl⟩
    have hchecked := inspected_eq_ok.2 ⟨hnone, rfl⟩
    refine ⟨htree, Emit.bind_eq_ok.2 ⟨code, hcode, ?_⟩⟩
    exact Emit.bind_eq_ok.2 ⟨code, hchecked, rfl⟩

end Rendered

end Target
end ApiContract
