import ApiContract.Proofs.ModulePaths
import Mathlib.Data.List.Fold
import Mathlib.Data.List.MinMax
import Mathlib.Data.List.Nodup
import Mathlib.Data.List.Perm.Basic

/-!
# Bundles and files

**Input:** a module tree whose modules have different places, with the module around each of them,
in any order and of any depth.

The files of a tree hold declarations of modules, a bundle holds the modules themselves.  Where the
declarations in the file of the root are replaced by the files of the modules that they declare, and
the declarations in those in the same way, the bundle comes out.  What a module declares in code of
its own stays as it is: it declares none of the tree, or repeats a declaration that has been
replaced.

**Results:**

* `replaced_declarations`, `replaced_eq_self`: declarations of a file that are replaced, and those
  that stay;
* `fileOf?_eq_some_iff`: the file that is found for a place is that of its module;
* `joined_eq_nested`: files put together are a bundle;
* `held_insideOf`: a bundle holds each module once, at its place;
* `bundle_joins_files`: a bundle and the files of a tree are the same modules;
* `repeated_declaration_stays`: not every declaration is replaced.
-/

namespace ApiContract

/-! ## Declarations in code -/

namespace Code

/-- Code with modules in the place of their declarations, given the code inside the modules.  Names
that are done are left, and only the first declaration of a name is replaced unless all are to
be. -/
def replaced (all : Bool) (inside : String → Option Code) : List String → Code → Code
  | done, .word "pub" :: .word "mod" :: .word name :: .mark ';' :: c =>
    match if name ∈ done then none else inside name with
    | some body =>
      flat "pub mod" ++ word name ++ braces body ++
        replaced all inside (if all then done else name :: done) c
    | none => flat "pub mod" ++ word name ++ flat ";" ++ replaced all inside done c
  | done, t :: c => t :: replaced all inside done c
  | _, [] => []

section Replaced

variable {all : Bool} {inside : String → Option Code} {done : List String} {a c body : Code}
  {name : String}

theorem flat_pubMod : flat "pub mod" = [.word "pub", .word "mod"] := by
  decide

theorem flat_semicolon : flat ";" = [.mark ';'] := by
  decide

/-- Code without the first word of a declaration is passed over. -/
theorem replaced_append (h : Token.word "pub" ∉ a) :
    replaced all inside done (a ++ c) = a ++ replaced all inside done c := by
  induction a with
  | nil => rfl
  | cons t a ih =>
      rw [List.mem_cons, not_or] at h
      rw [List.cons_append, replaced, ih h.2, List.cons_append]
      intro name c' ht
      exact absurd ht (Ne.symm h.1)

/-- A declaration of a name that is not done is replaced. -/
theorem replaced_declaration (hname : name ∉ done) (hbody : inside name = some body) :
    replaced all inside done (flat "pub mod" ++ word name ++ flat ";" ++ c) =
      flat "pub mod" ++ word name ++ braces body ++
        replaced all inside (if all then done else name :: done) c := by
  have hcode : flat "pub mod" ++ word name ++ flat ";" ++ c =
      .word "pub" :: .word "mod" :: .word name :: .mark ';' :: c := by
    rw [flat_pubMod, flat_semicolon]
    rfl
  rw [hcode, replaced, if_neg hname, hbody]

/-- Declarations stay if there are no modules for them. -/
theorem replaced_eq_self (h : ∀ name, name ∉ done → inside name = none) :
    replaced all inside done c = c := by
  fun_induction replaced all inside done c with
  | case1 done name c body hbody ih =>
      split at hbody
      · cases hbody
      · rename_i hname
        rw [h name hname] at hbody
        cases hbody
  | case2 done name c hbody ih =>
      rw [ih h, flat_pubMod, flat_semicolon]
      rfl
  | case3 done t c hne ih => rw [ih h]
  | case4 => rfl

theorem pub_not_mem_docAttrs (s : String) : Token.word "pub" ∉ docAttrs s := by
  intro h
  obtain ⟨line, -, h⟩ := List.mem_flatMap.1 h
  generalize (if line.isEmpty then "" else " " ++ line) = text at h
  have hattr : docAttr text =
      [.mark '#', .mark '[', .word "doc", .mark '=', .text text, .mark ']'] := rfl
  rw [hattr] at h
  simp at h

end Replaced

end Code

namespace ModuleTree

open Code (replaced flat word braces docAttrs)
open FilePath (IsName ofChars withExtension_append)

/-! ## Modules below a place -/

/-- The last name of a place. -/
def nameOf (m : SourceModule) : String :=
  m.place.getLastD ""

/-- The file of a module. -/
def fileFor (t : ModuleTree) (m : SourceModule) : CodeFile :=
  { path := t.pathOf m, code := t.declarations m.place ++ m.code }

section Children

variable {t : ModuleTree} {m c : SourceModule} {place : List String} {name : String}

theorem mem_children_iff :
    m ∈ t.children place ↔ m ∈ t.modules ∧ ∃ name, m.place = place ++ [name] := by
  have hbelow : isBelow place m = true ↔ ∃ name, m.place = place ++ [name] := by
    rw [isBelow, Bool.and_eq_true, beq_iff_eq, List.isPrefixOf_iff_prefix]
    constructor
    · rintro ⟨hlength, rest, hrest⟩
      rw [← hrest, List.length_append, Nat.add_left_cancel_iff] at hlength
      obtain ⟨name, rfl⟩ := List.length_eq_one_iff.1 hlength
      exact ⟨name, hrest.symm⟩
    · rintro ⟨name, hplace⟩
      rw [hplace, List.length_append]
      exact ⟨rfl, List.prefix_append _ _⟩
  rw [children, List.mem_filter, hbelow]

theorem place_of_mem_children (h : c ∈ t.children place) : c.place = place ++ [nameOf c] := by
  obtain ⟨-, name, hplace⟩ := mem_children_iff.1 h
  rw [nameOf, hplace, List.getLastD_concat]

theorem place_ne_nil_of_mem_children (h : c ∈ t.children place) : c.place ≠ [] := by
  rw [place_of_mem_children h]
  simp

theorem length_of_mem_children (h : c ∈ t.children place) : c.place.length = place.length + 1 := by
  rw [place_of_mem_children h, List.length_append, List.length_singleton]

theorem heading_eq (h : m.place = place ++ [name]) :
    heading m = (m.doc.map docAttrs).getD [] ++ flat "pub mod" ++ word name := by
  rw [heading, h, List.getLast?_concat]
  rfl

theorem length_le_height (h : m ∈ t.modules) : m.place.length ≤ t.height := by
  rw [height, List.foldl_eq_foldr]
  exact List.le_max_of_le' 0 (List.mem_map_of_mem h) (Nat.le_refl _)

/-- Below a place that is deep enough stands no module. -/
theorem children_eq_nil (h : t.height ≤ place.length) : t.children place = [] := by
  refine List.eq_nil_iff_forall_not_mem.2 fun c hc => ?_
  have hheight := length_le_height (mem_children_iff.1 hc).1
  have hlength := length_of_mem_children hc
  omega

end Children

/-! ## Files and their places -/

/-- The paths at which the file of a module can be: under its own name, or in a directory of its
name. -/
def sites (place : List String) : List FilePath :=
  [(placePath place).withExtension "rs", (placePath place).join ⟨"mod.rs"⟩]

/-- The file of a module, found by its path.  What cannot be the name of a module has none. -/
def fileOf? (files : List CodeFile) (place : List String) : Option CodeFile :=
  if Named place then files.find? fun f => decide (f.path ∈ sites place) else none

/-- A tree with the module around each of its modules. -/
structure Complete (t : ModuleTree) : Prop where
  named : ∀ m ∈ t.modules, Named m.place
  nodup : (t.modules.map (·.place)).Nodup
  closed : ∀ m ∈ t.modules, m.place ≠ [] → ∃ p ∈ t.modules, p.place = m.place.dropLast

section Sites

variable {t : ModuleTree} {m : SourceModule} {place : List String} {f : CodeFile}

/-- The path of a file says its directories and its name. -/
theorem path_inj {dirs dirs' : List String} {name name' : String}
    (hdirs : ∀ n ∈ dirs, Plain n.toList) (hname : Plain name.toList)
    (hdirs' : ∀ n ∈ dirs', Plain n.toList) (hname' : Plain name'.toList)
    (h : ofChars (directories dirs ++ (name.toList ++ ".rs".toList)) =
      ofChars (directories dirs' ++ (name'.toList ++ ".rs".toList))) : (dirs, name) =
        (dirs', name') := by
  have hnames := congrArg FilePath.names h
  rw [names_directories hdirs (isName_rs hname),
    names_directories hdirs' (isName_rs hname')] at hnames
  obtain ⟨rfl, hlast⟩ := List.append_inj' hnames rfl
  have htext := congrArg String.toList (List.singleton_inj.1 hlast)
  rw [String.toList_ofList (l := name.toList ++ _),
    String.toList_ofList (l := name'.toList ++ _)] at htext
  obtain rfl : name = name' := String.toList_inj.1 (List.append_cancel_right htext)
  rfl

/-- The two paths of a module: in the directory around it, and in its own. -/
theorem sites_eq {before : List String} {name : String} (h : Named (before ++ [name])) :
    sites (before ++ [name]) = [ofChars (directories before ++ (name.toList ++ ".rs".toList)),
      ofChars (directories (before ++ [name]) ++ ("mod".toList ++ ".rs".toList))] := by
  have hname := h.plain name (by simp)
  have htext : "mod.rs".toList = "mod".toList ++ ".rs".toList := by decide
  have hmod : IsName "mod.rs".toList := htext ▸ isName_rs plain_mod
  rw [sites, join_of_isName _ hmod, asStem_placePath h.plain, htext, placePath_append h.plain,
    withExtension_append (isStem_directories _) hname.isName, hname.cutName_eq]
  rfl

/-- A file stands where that of a module below another can be only if it is its file. -/
theorem mem_sites_iff (hm : Named m.place) (h : Named place) (hne : place ≠ []) :
    t.pathOf m ∈ sites place ↔ m.place = place := by
  obtain ⟨before, name, rfl⟩ := (List.eq_nil_or_concat' place).resolve_left hne
  constructor
  · intro hmem
    have hplain : ∀ n ∈ before, Plain n.toList := fun n hn => h.plain n (List.mem_append_left _ hn)
    have hname := h.plain name (by simp)
    have hmod := h.ne_mod name (by simp)
    obtain ⟨hdirs, hlast⟩ := plain_spotOf (t := t) hm
    rw [sites_eq h, pathOf_eq t hm.plain, List.mem_cons, List.mem_singleton] at hmem
    rcases spotOf_spec t m with hspot | ⟨before', name', hplace, hspot⟩
    · rw [hspot] at hmem hdirs hlast
      rcases hmem with hpath | hpath
      · exact absurd (Prod.mk.inj (path_inj hdirs hlast hplain hname hpath)).2.symm hmod
      · exact (Prod.mk.inj (path_inj hdirs hlast h.plain plain_mod hpath)).1
    · rw [hspot] at hmem hdirs hlast
      rcases hmem with hpath | hpath
      · obtain ⟨rfl, rfl⟩ := Prod.mk.inj (path_inj hdirs hlast hplain hname hpath)
        exact hplace
      · have hmod' := (Prod.mk.inj (path_inj hdirs hlast h.plain plain_mod hpath)).2
        exact absurd hmod' (hm.ne_mod name' (by simp [hplace]))
  · intro hplace
    have hpath : t.pathOf m = if m.place.isEmpty || !(t.children m.place).isEmpty then
        (placePath m.place).join ⟨"mod.rs"⟩ else (placePath m.place).withExtension "rs" := rfl
    rw [sites, List.mem_cons, List.mem_singleton, hpath, ← hplace]
    split
    · exact Or.inr rfl
    · exact Or.inl rfl

end Sites

section Files

variable {t : ModuleTree} {m : SourceModule} {place : List String} {f : CodeFile}

theorem Complete.eq_of_place (h : t.Complete) {m m' : SourceModule} (hm : m ∈ t.modules)
    (hm' : m' ∈ t.modules) (hplace : m.place = m'.place) : m = m' :=
  List.inj_on_of_nodup_map h.nodup hm hm' hplace

/-- The file that is found for a place is that of the module there. -/
theorem fileOf?_eq_some_iff (h : t.Complete) (hne : place ≠ []) :
    fileOf? t.files place = some f ↔ ∃ m ∈ t.modules, m.place = place ∧ f = t.fileFor m := by
  have hfiles : t.files = t.modules.map t.fileFor := rfl
  rw [fileOf?, hfiles]
  constructor
  · intro hf
    split at hf
    · rename_i hnamed
      obtain ⟨m, hm, rfl⟩ := List.mem_map.1 (List.mem_of_find?_eq_some hf)
      have hsite : decide (t.pathOf m ∈ sites place) = true :=
        List.find?_some (p := fun f : CodeFile => decide (f.path ∈ sites place)) hf
      exact ⟨m, hm, (mem_sites_iff (h.named m hm) hnamed hne).1 (of_decide_eq_true hsite), rfl⟩
    · cases hf
  · rintro ⟨m, hm, rfl, rfl⟩
    have hnamed := h.named m hm
    have hsite : t.pathOf m ∈ sites m.place := (mem_sites_iff hnamed hnamed hne).2 rfl
    rw [if_pos hnamed]
    refine find?_eq_some_of_unique (List.mem_map_of_mem hm) (decide_eq_true hsite) ?_
    rintro _ hf hsite'
    obtain ⟨m', hm', rfl⟩ := List.mem_map.1 hf
    have hplace := (mem_sites_iff (h.named m' hm') hnamed hne).1 (of_decide_eq_true hsite')
    rw [h.eq_of_place hm' hm hplace]

end Files

/-! ## Files put together -/

/-- Code of a file at a place, with the files of modules that are declared in it in the place of the
declarations, down to the given depth. -/
def inlined (all : Bool) (files : List CodeFile) : Nat → List String → Code → Code
  | 0, _, c => c
  | depth + 1, place, c =>
    replaced all (fun name => (fileOf? files (place ++ [name])).map fun f =>
      inlined all files depth (place ++ [name]) f.code) [] c

/-- Files put together from that of the root on. -/
def joined (all : Bool) (files : List CodeFile) (depth : Nat) : Option Code :=
  (files.find? fun f => f.path = ⟨"mod.rs"⟩).map fun f => inlined all files depth [] f.code

section Joined

variable {t : ModuleTree} {m root : SourceModule} {place : List String} {depth : Nat}

/-- Declarations of modules with different names are all replaced. -/
theorem replaced_declarations (body : SourceModule → Code) {inside : String → Option Code}
    {done : List String} {rest : Code} {cs : List SourceModule}
    (hplace : ∀ c ∈ cs, c.place = place ++ [nameOf c]) (hnodup : (cs.map nameOf).Nodup)
    (hdone : ∀ c ∈ cs, nameOf c ∉ done) (hbody : ∀ c ∈ cs, inside (nameOf c) = some (body c)) :
    replaced false inside done (cs.flatMap (fun c => heading c ++ flat ";") ++ rest) =
      cs.flatMap (fun c => heading c ++ braces (body c)) ++
        replaced false inside ((cs.map nameOf).reverse ++ done) rest := by
  induction cs generalizing done with
  | nil => rfl
  | cons c cs ih =>
      rw [List.forall_mem_cons] at hplace hdone hbody
      rw [List.map_cons, List.nodup_cons] at hnodup
      have hrest : ∀ c' ∈ cs, nameOf c' ∉ nameOf c :: done := by
        intro c' hc' hmem
        rcases List.mem_cons.1 hmem with heq | hmem
        · exact hnodup.1 (heq ▸ List.mem_map_of_mem hc')
        · exact hdone.2 c' hc' hmem
      have hdocs : Token.word "pub" ∉ (c.doc.map docAttrs).getD [] := by
        cases c.doc with
        | none => simp
        | some s => exact Code.pub_not_mem_docAttrs s
      have hfirst : replaced false inside done (flat "pub mod" ++ word (nameOf c) ++ flat ";" ++
          (cs.flatMap (fun c => heading c ++ flat ";") ++ rest)) =
          flat "pub mod" ++ word (nameOf c) ++ braces (body c) ++
            replaced false inside (nameOf c :: done)
              (cs.flatMap (fun c => heading c ++ flat ";") ++ rest) :=
        Code.replaced_declaration hdone.1 hbody.1
      rw [ih hplace.2 hnodup.2 hrest hbody.2] at hfirst
      rw [List.flatMap_cons, List.flatMap_cons, heading_eq hplace.1]
      simp only [List.append_assoc, List.map_cons, List.reverse_cons,
        List.singleton_append] at hfirst ⊢
      rw [Code.replaced_append hdocs, hfirst]

/-- More depth than there is changes nothing. -/
theorem nested_eq_nested {depth' : Nat} (h : t.height ≤ m.place.length + depth)
    (h' : t.height ≤ m.place.length + depth') : t.nested depth m = t.nested depth' m := by
  induction depth generalizing m depth' with
  | zero =>
      cases depth' with
      | zero => rfl
      | succ depth' => rw [nested, nested, children_eq_nil h, List.flatMap_nil, List.nil_append]
  | succ depth ih =>
      cases depth' with
      | zero => rw [nested, nested, children_eq_nil h', List.flatMap_nil, List.nil_append]
      | succ depth' =>
          rw [nested, nested]
          refine congrArg (· ++ m.code) (List.flatMap_congr fun c hc => ?_)
          have hlength := length_of_mem_children hc
          have hsame : t.nested depth c = t.nested depth' c := ih (by omega) (by omega)
          rw [hsame]

theorem nodup_names_of_children (h : t.Complete) (place : List String) :
    ((t.children place).map nameOf).Nodup := by
  have hplaces : ((t.children place).map (·.place)).Nodup :=
    h.nodup.sublist (List.filter_sublist.map _)
  rw [List.Nodup, List.pairwise_map] at hplaces ⊢
  refine hplaces.imp_of_mem fun {c c'} hc hc' hne hname => hne ?_
  rw [place_of_mem_children hc, place_of_mem_children hc', hname]

/-- A file with all files below it is the module with all modules inside it. -/
theorem inlined_eq_nested (h : t.Complete) (hdepth : t.height ≤ m.place.length + depth) :
    inlined false t.files depth m.place (t.fileFor m).code = t.nested depth m := by
  induction depth generalizing m with
  | zero => rw [inlined, fileFor, declarations, children_eq_nil hdepth, nested, List.flatMap_nil,
      List.nil_append]
  | succ depth ih =>
      have hfile : ∀ c ∈ t.children m.place,
          fileOf? t.files (m.place ++ [nameOf c]) = some (t.fileFor c) := by
        intro c hc
        have hplace := place_of_mem_children hc
        exact (fileOf?_eq_some_iff h (by simp)).2 ⟨c, (mem_children_iff.1 hc).1, hplace, rfl⟩
      rw [inlined, fileFor, declarations, nested,
        replaced_declarations (t.nested depth) (fun c => place_of_mem_children)
          (nodup_names_of_children h m.place) (fun _ _ => List.not_mem_nil) ?hbody,
        Code.replaced_eq_self ?hrest]
      case hbody =>
        intro c hc
        have hlength := length_of_mem_children hc
        rw [hfile c hc, Option.map_some, ← place_of_mem_children hc, ih (by omega)]
      case hrest =>
        -- What is declared later has no file, or has been declared by the tree.
        intro name hname
        rw [Option.map_eq_none_iff, Option.eq_none_iff_forall_ne_some]
        intro f hf
        obtain ⟨c, hc, hplace, -⟩ := (fileOf?_eq_some_iff h (by simp)).1 hf
        have hchild : c ∈ t.children m.place := mem_children_iff.2 ⟨hc, name, hplace⟩
        refine hname (List.mem_append_left _ (List.mem_reverse.2 ?_))
        refine List.mem_map.2 ⟨c, hchild, ?_⟩
        rw [nameOf, hplace, List.getLastD_concat]

theorem pathOf_root (hplace : root.place = []) : t.pathOf root = ⟨"mod.rs"⟩ := by
  rw [pathOf, hplace]
  rfl

theorem root?_eq_some (h : t.Complete) (hroot : root ∈ t.modules) (hplace : root.place = []) :
    t.root? = some root := by
  refine find?_eq_some_of_unique hroot (by rw [hplace]; rfl) fun m hm hempty => ?_
  exact h.eq_of_place hm hroot (by rw [hplace, List.isEmpty_iff.1 hempty])

/-- The file of the root is the one that begins. -/
theorem joined_eq_inlined (h : t.Complete) (hroot : root ∈ t.modules) (hplace : root.place = [])
    (all : Bool) (depth : Nat) :
    joined all t.files depth = some (inlined all t.files depth [] (t.fileFor root).code) := by
  have hpath := pathOf_root (t := t) hplace
  have hfile : t.files.find? (fun f => decide (f.path = ⟨"mod.rs"⟩)) = some (t.fileFor root) := by
    refine find?_eq_some_of_unique (List.mem_map_of_mem hroot) (decide_eq_true hpath) ?_
    rintro _ hf hfirst
    obtain ⟨m, hm, rfl⟩ := List.mem_map.1 hf
    have hsame : t.pathOf m = t.pathOf root := (of_decide_eq_true hfirst).trans hpath.symm
    rw [h.eq_of_place hm hroot ((pathOf_inj (h.named m hm) (h.named root hroot)).1 hsame)]
    rfl
  rw [joined, hfile, Option.map_some]

/-- The files put together are the root with all modules inside it. -/
theorem joined_eq_nested (h : t.Complete) (hroot : root ∈ t.modules) (hplace : root.place = [])
    (hdepth : t.height ≤ depth) : joined false t.files depth = some (t.nested t.height root) := by
  have hinlined := inlined_eq_nested (m := root) h (hdepth.trans (Nat.le_add_left _ _))
  rw [hplace] at hinlined
  rw [joined_eq_inlined h hroot hplace, hinlined,
    nested_eq_nested (hdepth.trans (Nat.le_add_left _ _)) (Nat.le_add_left _ _)]

end Joined

/-! ## Modules inside modules -/

/-- What stands in a module: modules inside it one after another, and code of its own behind
them. -/
inductive Inside
  | own (code : Code)
  | module (doc : Option String) (name : String) (body rest : Inside)

namespace Inside

/-- The code of what stands in a module. -/
def print : Inside → Code
  | own code => code
  | module doc name body rest =>
    (doc.map docAttrs).getD [] ++ flat "pub mod" ++ word name ++ braces body.print ++ rest.print

/-- The module with the given place, and all modules inside it. -/
def held (place : List String) (doc : Option String) : Inside → List SourceModule
  | own code => [{ place, code, doc }]
  | module doc' name body rest => body.held (place ++ [name]) doc' ++ rest.held place doc

end Inside

/-- What stands in a module of a tree, down to the given depth. -/
def insideOf (t : ModuleTree) : Nat → SourceModule → Inside
  | 0, m => .own m.code
  | depth + 1, m => (t.children m.place).foldr
    (fun c rest => .module c.doc (nameOf c) (t.insideOf depth c) rest) (.own m.code)

section Inside

variable {t : ModuleTree} {m : SourceModule} {place : List String} {depth : Nat}
  {cs : List SourceModule} {body : SourceModule → Inside} {last : Inside}

theorem print_foldr (hplace : ∀ c ∈ cs, c.place = place ++ [nameOf c]) :
    (cs.foldr (fun c rest => .module c.doc (nameOf c) (body c) rest) last).print =
      cs.flatMap (fun c => heading c ++ braces (body c).print) ++ last.print := by
  induction cs with
  | nil => rfl
  | cons c cs ih =>
      rw [List.forall_mem_cons] at hplace
      rw [List.foldr_cons, Inside.print, ih hplace.2, List.flatMap_cons, heading_eq hplace.1]
      simp only [List.append_assoc]

theorem held_foldr (hplace : ∀ c ∈ cs, c.place = place ++ [nameOf c]) (doc : Option String) :
    (cs.foldr (fun c rest => .module c.doc (nameOf c) (body c) rest) last).held place doc =
      cs.flatMap (fun c => (body c).held c.place c.doc) ++ last.held place doc := by
  induction cs with
  | nil => rfl
  | cons c cs ih =>
      rw [List.forall_mem_cons] at hplace
      rw [List.foldr_cons, Inside.held, ih hplace.2, List.flatMap_cons, ← hplace.1,
        List.append_assoc]

theorem print_insideOf (t : ModuleTree) (depth : Nat) (m : SourceModule) :
    (t.insideOf depth m).print = t.nested depth m := by
  induction depth generalizing m with
  | zero => rfl
  | succ depth ih =>
      rw [insideOf, print_foldr fun c => place_of_mem_children, nested, Inside.print]
      simp only [ih]

/-- Whatever stands above a module is there. -/
theorem exists_of_prefix (h : t.Complete) (hm : m ∈ t.modules) (hplace : place <+: m.place) :
    ∃ p ∈ t.modules, p.place = place := by
  obtain ⟨rest, hrest⟩ := hplace
  induction rest using List.reverseRecOn generalizing m with
  | nil => exact ⟨m, hm, by rw [← hrest, List.append_nil]⟩
  | append_singleton rest name ih =>
      have hne : m.place ≠ [] := by
        rw [← hrest]
        simp
      obtain ⟨p, hp, hparent⟩ := h.closed m hm hne
      refine ih hp ?_
      rw [hparent, ← hrest, ← List.append_assoc, List.dropLast_concat]

/-- The modules at a place and below it. -/
def under (t : ModuleTree) (place : List String) : List SourceModule :=
  t.modules.filter fun m => place.isPrefixOf m.place

theorem mem_under_iff : m ∈ t.under place ↔ m ∈ t.modules ∧ place <+: m.place := by
  rw [under, List.mem_filter, List.isPrefixOf_iff_prefix]

theorem nodup_under (h : t.Complete) (place : List String) : (t.under place).Nodup :=
  (List.Nodup.of_map _ h.nodup).filter _

/-- No module stands below two children of a place. -/
theorem nodup_under_children (h : t.Complete) (place : List String) :
    ((t.children place).flatMap fun c => t.under c.place).Nodup := by
  refine List.nodup_flatMap.2 ⟨fun c _ => nodup_under h c.place, ?_⟩
  have hplaces := (List.pairwise_map.1 h.nodup).sublist (List.filter_sublist (p := isBelow place))
  refine hplaces.imp_of_mem fun {c c'} hc hc' hne x hx hx' => hne ?_
  -- Two beginnings of one place that are equally long are the same.
  have hlength : c.place.length = c'.place.length := by
    rw [length_of_mem_children hc, length_of_mem_children hc']
  have hprefix := List.prefix_of_prefix_length_le (mem_under_iff.1 hx).2 (mem_under_iff.1 hx').2
    hlength.le
  exact hprefix.eq_of_length hlength

theorem not_mem_under_child {c : SourceModule} (hc : c ∈ t.children m.place) :
    m ∉ t.under c.place := by
  intro hmem
  have hle := (mem_under_iff.1 hmem).2.length_le
  have hlength := length_of_mem_children hc
  omega

/-- What stands at the place of a module or below it is the module, or stands at or below a
child. -/
theorem mem_under_iff_child (h : t.Complete) (hm : m ∈ t.modules) {x : SourceModule} :
    x ∈ t.under m.place ↔ (∃ c ∈ t.children m.place, x ∈ t.under c.place) ∨ x = m := by
  rw [mem_under_iff]
  constructor
  · rintro ⟨hx, rest, hrest⟩
    cases rest with
    | nil =>
        rw [List.append_nil] at hrest
        exact Or.inr (h.eq_of_place hx hm hrest.symm)
    | cons name rest =>
        have hprefix : m.place ++ [name] <+: x.place := ⟨rest, by rw [← hrest]; simp⟩
        obtain ⟨c, hc, hplace⟩ := exists_of_prefix h hx hprefix
        refine Or.inl ⟨c, mem_children_iff.2 ⟨hc, name, hplace⟩, mem_under_iff.2 ⟨hx, ?_⟩⟩
        rwa [hplace]
  · rintro (⟨c, hc, hx⟩ | rfl)
    · obtain ⟨hx, hprefix⟩ := mem_under_iff.1 hx
      rw [place_of_mem_children hc] at hprefix
      exact ⟨hx, (List.prefix_append _ _).trans hprefix⟩
    · exact ⟨hm, List.prefix_rfl⟩

/-- A module and those below it are the module and those at and below its children. -/
theorem under_perm (h : t.Complete) (hm : m ∈ t.modules) :
    ((t.children m.place).flatMap (fun c => t.under c.place) ++ [m]).Perm (t.under m.place) := by
  have hnodup : ((t.children m.place).flatMap (fun c => t.under c.place) ++ [m]).Nodup := by
    refine (nodup_under_children h m.place).append (List.nodup_singleton m) ?_
    rw [List.disjoint_singleton, List.mem_flatMap]
    rintro ⟨c, hc, hmem⟩
    exact not_mem_under_child hc hmem
  refine (List.perm_ext_iff_of_nodup hnodup (nodup_under h m.place)).2 fun x => ?_
  rw [mem_under_iff_child h hm, List.mem_append, List.mem_flatMap, List.mem_singleton]

/-- What stands in a module holds the module and each one below it once. -/
theorem held_insideOf (h : t.Complete) (hm : m ∈ t.modules)
    (hdepth : t.height ≤ m.place.length + depth) :
    ((t.insideOf depth m).held m.place m.doc).Perm (t.under m.place) := by
  induction depth generalizing m with
  | zero =>
      have hunder := under_perm h hm
      rwa [children_eq_nil hdepth, List.flatMap_nil, List.nil_append] at hunder
  | succ depth ih =>
      rw [insideOf, held_foldr fun c => place_of_mem_children]
      refine List.Perm.trans ?_ (under_perm h hm)
      refine List.Perm.append_right _ (List.Perm.flatMap_left _ fun c hc => ?_)
      have hlength := length_of_mem_children hc
      exact ih (mem_children_iff.1 hc).1 (by omega)

end Inside

/-! ## Bundles -/

/-- Code that begins with declarations of modules is accepted only if these have names. -/
def KnowsNames (inspect : Target.Inspector) : Prop :=
  ∀ (ms : List SourceModule) (rest : Code),
    inspect (ms.flatMap (fun m => heading m ++ flat ";") ++ rest) = none →
      ∀ m ∈ ms, ∀ name ∈ m.place.getLast?, Named [name]

/-- The file of a module declares another one below it. -/
def Declares (t : ModuleTree) (p m : SourceModule) : Prop :=
  (∃ name, m.place = p.place ++ [name]) ∧ heading m ++ flat ";" <:+: (t.fileFor p).code

/-- A bundle and the files of a tree are the same modules. -/
structure Joins (t : ModuleTree) (root : SourceModule) (bundle : Code) : Prop where
  /-- The files put together from that of the root on are the bundle. -/
  files : ∀ depth, t.height ≤ depth → joined false t.files depth = some bundle
  /-- The bundle holds each module once, at its place. -/
  modules : ∃ inside : Inside, inside.print = bundle ∧ (inside.held [] root.doc).Perm t.modules
  /-- Each module but the root is declared in the file of exactly one. -/
  declared : ∀ m ∈ t.modules, m.place ≠ [] → ∃! p, p ∈ t.modules ∧ t.Declares p m

section Bundles

variable {t : ModuleTree} {m root : SourceModule} {inspect : Target.Inspector}

/-- Modules have names if all their files are accepted. -/
theorem named_of_accepted (hknows : KnowsNames inspect)
    (hclosed : ∀ m ∈ t.modules, m.place ≠ [] → ∃ p ∈ t.modules, p.place = m.place.dropLast)
    (hfiles : ∀ f ∈ t.files, inspect f.code = none) (hm : m ∈ t.modules) : Named m.place := by
  generalize hplace : m.place = place
  induction place using List.reverseRecOn generalizing m with
  | nil => exact ⟨nofun, nofun⟩
  | append_singleton before name ih =>
      obtain ⟨p, hp, hparent⟩ := hclosed m hm (by simp [hplace])
      rw [hplace, List.dropLast_concat] at hparent
      have hbefore := ih hp hparent
      have hchild : m ∈ t.children p.place := mem_children_iff.2 ⟨hm, name, by rw [hplace, hparent]⟩
      have hname := hknows _ _ (hfiles _ (List.mem_map_of_mem hp)) m hchild name (by simp [hplace])
      exact ⟨List.forall_mem_append.2 ⟨hbefore.plain, hname.plain⟩,
        List.forall_mem_append.2 ⟨hbefore.ne_mod, hname.ne_mod⟩⟩

theorem declared_once (h : t.Complete) (hm : m ∈ t.modules) (hne : m.place ≠ []) :
    ∃! p, p ∈ t.modules ∧ t.Declares p m := by
  obtain ⟨p, hp, hparent⟩ := h.closed m hm hne
  obtain ⟨before, name, hplace⟩ := (List.eq_nil_or_concat' m.place).resolve_left hne
  rw [hplace, List.dropLast_concat] at hparent
  refine ⟨p, ⟨hp, ⟨name, by rw [hplace, hparent]⟩, ?_⟩, ?_⟩
  · have hchild : m ∈ t.children p.place := mem_children_iff.2 ⟨hm, name, by rw [hplace, hparent]⟩
    have hdeclared := infix_flatMap (f := fun m => heading m ++ flat ";") hchild
    exact hdeclared.trans (List.prefix_append _ _).isInfix
  · rintro p' ⟨hp', ⟨name', hplace'⟩, -⟩
    rw [hplace'] at hplace
    exact h.eq_of_place hp' hp ((List.append_inj' hplace rfl).1.trans hparent.symm)

/-- A bundle is what comes out when the files of a tree are put into each other.  It holds each
module once, and each module but the root is declared once. -/
theorem bundle_joins_files (hknows : KnowsNames inspect) (hroot : root ∈ t.modules)
    (hplace : root.place = []) (hnodup : (t.modules.map (·.place)).Nodup)
    (hclosed : ∀ m ∈ t.modules, m.place ≠ [] → ∃ p ∈ t.modules, p.place = m.place.dropLast)
    (hfiles : ∀ f ∈ t.files, inspect f.code = none) :
    ∃ bundle, t.bundle = .ok bundle ∧ Joins t root bundle := by
  have h : t.Complete := ⟨fun m => named_of_accepted hknows hclosed hfiles, hnodup, hclosed⟩
  refine ⟨t.nested t.height root, by rw [bundle, root?_eq_some h hroot hplace], ?_⟩
  constructor
  case files => exact fun depth => joined_eq_nested h hroot hplace
  case modules =>
    refine ⟨t.insideOf t.height root, print_insideOf t t.height root, ?_⟩
    have hheld : ((t.insideOf t.height root).held root.place root.doc).Perm (t.under root.place) :=
      held_insideOf h hroot (Nat.le_add_left _ _)
    have hall : t.under root.place = t.modules := by
      rw [under, hplace]
      exact List.filter_eq_self.2 fun _ _ => rfl
    rwa [hall, hplace] at hheld
  case declared => exact fun m => declared_once h

/-- Finds a word that cannot name a module where one is to be named. -/
def wary : Target.Inspector := fun c =>
  if (c.zip c.tail).all fun
      | (.word "mod", .word name) => decide (Named [name])
      | _ => true
  then none else some "expected identifier"

theorem mem_zip_tail {α : Type} {a b : α} {c : List α} (h : [a, b] <:+: c) :
    (a, b) ∈ c.zip c.tail := by
  obtain ⟨before, after, rfl⟩ := h
  induction before with
  | nil => exact List.mem_cons_self
  | cons x before ih =>
      cases before with
      | nil => exact List.mem_cons_of_mem _ ih
      | cons y before => exact List.mem_cons_of_mem _ ih

theorem knowsNames_wary : KnowsNames wary := by
  intro ms rest h m hm name hname
  have hheading : [.word "mod", .word name] <:+: heading m ++ flat ";" := by
    rw [heading, Option.mem_def.1 hname, Code.flat_pubMod]
    exact ⟨(m.doc.map docAttrs).getD [] ++ [.word "pub"], flat ";", by simp [word]⟩
  have hdeclared := infix_flatMap (f := fun m => heading m ++ flat ";") hm
  have hcode := hheading.trans (hdeclared.trans (List.prefix_append _ rest).isInfix)
  unfold wary at h
  split at h
  · rename_i hall
    exact of_decide_eq_true (List.all_eq_true.1 hall _ (mem_zip_tail hcode))
  · cases h

/-- A module inside another one, before the one around it, and the root behind both. -/
def petTree : ModuleTree where
  modules := [
    { place := ["models", "pet"], code := flat "pub struct Pet;", doc := some "A pet." },
    { place := [], code := flat "pub use self::models::pet::Pet;" },
    { place := ["models"], code := flat "pub use self::pet::Pet;" }]

theorem bundle_joins_files_pet : ∃ bundle, petTree.bundle = .ok bundle ∧
    Joins petTree { place := [], code := flat "pub use self::models::pet::Pet;" } bundle :=
  bundle_joins_files knowsNames_wary (by simp [petTree]) rfl (by decide) (by decide) (by decide)

/-- A root that declares the only other module in code of its own. -/
def repeatingTree : ModuleTree where
  modules := [{ place := [], code := flat "pub mod a;" },
    { place := ["a"], code := flat "pub struct A;" }]

/-- A declaration that the code of a module repeats stays in the bundle, so not all are replaced. -/
theorem repeated_declaration_stays :
    KnowsNames wary ∧ (repeatingTree.modules.map (·.place)).Nodup ∧
      (∀ m ∈ repeatingTree.modules, m.place ≠ [] →
        ∃ p ∈ repeatingTree.modules, p.place = m.place.dropLast) ∧
      (∀ f ∈ repeatingTree.files, wary f.code = none) ∧
      ∃ bundle, repeatingTree.bundle = .ok bundle ∧ wary bundle = none ∧
        ∀ depth, repeatingTree.height ≤ depth →
          joined true repeatingTree.files depth ≠ some bundle := by
  have hnodup : (repeatingTree.modules.map (·.place)).Nodup := by decide
  have hclosed : ∀ m ∈ repeatingTree.modules, m.place ≠ [] →
      ∃ p ∈ repeatingTree.modules, p.place = m.place.dropLast := by decide
  have hfiles : ∀ f ∈ repeatingTree.files, wary f.code = none := by decide
  refine ⟨knowsNames_wary, hnodup, hclosed, hfiles, _, rfl, by decide, fun depth hdepth => ?_⟩
  have h : repeatingTree.Complete :=
    ⟨fun m => named_of_accepted knowsNames_wary hclosed hfiles, hnodup, hclosed⟩
  obtain ⟨depth, rfl⟩ : ∃ d, depth = d + 1 := Nat.exists_eq_add_one.2 hdepth
  have hleaf : inlined true repeatingTree.files depth ["a"] (flat "pub struct A;") =
      flat "pub struct A;" := by
    cases depth <;> rfl
  have hfile : fileOf? repeatingTree.files ["a"] = some ⟨⟨"a.rs"⟩, flat "pub struct A;"⟩ :=
    (fileOf?_eq_some_iff h (by simp)).2 ⟨_, List.mem_cons_of_mem _ List.mem_cons_self, rfl, rfl⟩
  have hinside : ∃ inside : String → Option Code, inside "a" = some (flat "pub struct A;") ∧
      ∀ c, inlined true repeatingTree.files (depth + 1) [] c = replaced true inside [] c := by
    refine ⟨_, ?_, fun _ => rfl⟩
    rw [List.nil_append, hfile, Option.map_some, hleaf]
  obtain ⟨inside, hinside, hinlined⟩ := hinside
  have hcode : (repeatingTree.fileFor { place := [], code := flat "pub mod a;" }).code =
      flat "pub mod" ++ word "a" ++ flat ";" ++ (flat "pub mod" ++ word "a" ++ flat ";" ++ []) := by
    decide
  rw [joined_eq_inlined h List.mem_cons_self rfl, hinlined, hcode,
    Code.replaced_declaration List.not_mem_nil hinside, if_pos rfl,
    Code.replaced_declaration List.not_mem_nil hinside, replaced]
  decide

end Bundles

end ModuleTree
end ApiContract
