import ApiContract.Proofs.Cleanups
import ApiContract.Proofs.FormFields
import ApiContract.Proofs.PetFiles

/-!
# Reading forms in order

**Input:** a handler that reads a form, and the parts of a multipart form with which it is run.

A handler reads every property of the record once, the scalars before the files, and stops at the
first read that fails.  A scalar needs no disk.  A file is made under a new name, and its removal is
put off before it is given its content.

**Results:**

* `FormRead.run`: what the statements that read a form do, one after the other;
* `executesAll_iff`: their texts, of which each makes one call (`Executes`), do this and nothing
  else;
* `FormRead.perm_reads`, `FormRead.pairwise_reads`: the reads are those of all fields, in another
  order;
* `Registered`: the files that were made, all of which are to be removed;
* `Registered.cleanup`: when they are removed, every place is as it was;
* `form_reads`: what a handler reads and makes, and that nothing it makes is forgotten;
* `run_avatarForm`: the handler of avatars is a case of it.
-/

namespace ApiContract

open Disk (Keeps)

/-! ## Files that are to be removed -/

namespace Disk

section Removal

variable {d : Disk} {p q : Place} {path : FilePath}

/-- Files at different places are removed one after the other, and nothing else is changed. -/
theorem runAll_removeFile {made : List (FilePath × Place)}
    (hstands : ∀ m ∈ made, ∃ content, d.find m.1 = .ok (m.2, .file content))
    (hnodup : (made.map Prod.snd).Nodup) :
    ∃ d', Cleanup.runAll d (made.map fun m => .removeFile m.1) =
        (d', made.map fun m => (.removeFile m.1, false)) ∧
      (∀ p ∈ made.map Prod.snd, d'.at? p = none) ∧
      ∀ q ∉ made.map Prod.snd, d'.at? q = d.at? q := by
  induction made generalizing d with
  | nil => exact ⟨d, rfl, nofun, fun _ _ => rfl⟩
  | cons m rest ih =>
      obtain ⟨path, p⟩ := m
      rw [List.map_cons, List.nodup_cons] at hnodup
      obtain ⟨content, hfind⟩ := hstands _ List.mem_cons_self
      obtain ⟨-, hat, -⟩ := find_file_iff.1 hfind
      have hdirectory : d.at? p ≠ some .directory := by
        rw [hat]
        exact fun h => nomatch h
      have hrest : ∀ m ∈ rest, ∃ content, (d.drop p).find m.1 = .ok (m.2, .file content) := by
        intro m hm
        obtain ⟨content, hfind⟩ := hstands m (List.mem_cons_of_mem _ hm)
        obtain ⟨hplace, hat, hs⟩ := find_file_iff.1 hfind
        have hne : m.2 ≠ p := by
          rintro rfl
          exact hnodup.1 (List.mem_map.2 ⟨m, hm, rfl⟩)
        exact ⟨content, find_file_iff.2
          ⟨(keeps_drop hdirectory).place hplace, (at?_drop_of_ne hne).trans hat, hs⟩⟩
      obtain ⟨d', hrun, hgone, hother⟩ := ih hrest hnodup.2
      refine ⟨d', ?_, ?_, ?_⟩
      · rw [List.map_cons, Cleanup.runAll, Cleanup.Action.run_removeFile_of_find hfind]
        simp only [hrun, List.map_cons]
      · intro r hr
        by_cases hlater : r ∈ rest.map Prod.snd
        · exact hgone r hlater
        · obtain rfl : r = p := (List.mem_cons.1 hr).resolve_right hlater
          rw [hother r hlater]
          exact at?_drop_self (ne_nil_of_not_directory hdirectory)
      · intro r hr
        rw [List.map_cons, List.mem_cons, not_or] at hr
        rw [hother r hr.2, at?_drop_of_ne hr.1]

end Removal

end Disk

/-- From one workspace to another files were made at places, and the removal of all of them was put
off. -/
structure Registered (w : Workspace) (made : List (FilePath × Place)) (w' : Workspace) : Prop where
  pending : w'.registry.pending = w.registry.pending ++ made.map fun m => .removeFile m.1
  stands : ∀ m ∈ made, ∃ content, w'.disk.find m.1 = .ok (m.2, .file content)
  vacant : ∀ p ∈ made.map Prod.snd, w.disk.at? p = none
  /-- No other place was changed. -/
  other : ∀ q ∉ made.map Prod.snd, w'.disk.at? q = w.disk.at? q
  nodup : (made.map Prod.snd).Nodup
  home : w'.disk.home = w.disk.home

namespace Registered

variable {w w' w'' : Workspace} {made made' : List (FilePath × Place)}

theorem refl (w : Workspace) : Registered w [] w where
  pending := (List.append_nil _).symm
  stands := nofun
  vacant := nofun
  other _ _ := rfl
  nodup := .nil
  home := rfl

/-- What stood still stands. -/
theorem keeps (h : Registered w made w') : Keeps [] w.disk w'.disk := by
  have hstays : ∀ q e, w.disk.at? q = some e → w'.disk.at? q = some e := by
    intro q e hq
    have hmade : q ∉ made.map Prod.snd := by
      intro hmem
      rw [h.vacant q hmem] at hq
      cases hq
    rw [h.other q hmade, hq]
  exact ⟨h.home, fun q => hstays q _, fun q _ => hstays q⟩

theorem trans (h : Registered w made w') (h' : Registered w' made' w'') :
    Registered w (made ++ made') w'' := by
  have hoccupied : ∀ p ∈ made.map Prod.snd, w'.disk.at? p ≠ none := by
    intro p hp
    obtain ⟨m, hm, rfl⟩ := List.mem_map.1 hp
    obtain ⟨content, hfind⟩ := h.stands m hm
    rw [(Disk.find_file_iff.1 hfind).2.1]
    exact Option.some_ne_none _
  have hnew : ∀ p ∈ made'.map Prod.snd, p ∉ made.map Prod.snd :=
    fun p hp hold => hoccupied p hold (h'.vacant p hp)
  refine ⟨?_, ?_, ?_, ?_, ?_, h'.home.trans h.home⟩
  · rw [h'.pending, h.pending, List.append_assoc, List.map_append]
  · intro m hm
    rcases List.mem_append.1 hm with hm | hm
    · obtain ⟨content, hfind⟩ := h.stands m hm
      obtain ⟨hplace, hat, hs⟩ := Disk.find_file_iff.1 hfind
      exact ⟨content, Disk.find_file_iff.2
        ⟨h'.keeps.place hplace, h'.keeps.entries _ List.not_mem_nil _ hat, hs⟩⟩
    · exact h'.stands m hm
  · intro p hp
    rw [List.map_append, List.mem_append] at hp
    rcases hp with hp | hp
    · exact h.vacant p hp
    · rw [← h.other p (hnew p hp)]
      exact h'.vacant p hp
  · intro q hq
    rw [List.map_append, List.mem_append, not_or] at hq
    rw [h'.other q hq.2, h.other q hq.1]
  · rw [List.map_append]
    exact h.nodup.append h'.nodup fun p hold hp => hnew p hp hold

/-- A file that is made where nothing stood, with its removal put off. -/
theorem single {path : FilePath} {p : Place} (h : w.disk.Free path p) (content : ByteArray) :
    Registered w [(path, p)] ⟨w.disk.put p (.file content), w.registry.removeFile path⟩ where
  pending := rfl
  stands m hm := by
    rw [List.mem_singleton.1 hm]
    exact ⟨content, h.find_put⟩
  vacant q hq := by
    rw [List.mem_singleton.1 hq]
    exact h.vacant
  other q hq := Disk.at?_put_of_ne (List.mem_singleton.not.1 hq) _
  nodup := List.nodup_singleton _
  home := rfl

/-- When everything that was made is removed, no removal fails and every place is as it was. -/
theorem cleanup (h : Registered w made w') :
    ∃ d, Cleanup.runAll w'.disk (made.map fun m => .removeFile m.1) =
        (d, made.map fun m => (.removeFile m.1, false)) ∧ ∀ q, d.at? q = w.disk.at? q := by
  obtain ⟨d, hrun, hgone, hother⟩ := Disk.runAll_removeFile h.stands h.nodup
  refine ⟨d, hrun, fun q => ?_⟩
  by_cases hq : q ∈ made.map Prod.snd
  · rw [hgone q hq, h.vacant q hq]
  · rw [hother q hq, h.other q hq]

end Registered

/-! ## What the statements do -/

namespace Emit

open Code (flat word literal braces commas)

/-- What a field of a form was read as. -/
inductive FieldValue
  | scalar (v : Scalar)
  | file (u : UploadedFile)

/-- The file that a field was read as. -/
def FieldValue.file? : FieldValue → Option UploadedFile
  | .scalar _ => none
  | .file u => some u

/-- The files among what fields were read as. -/
def uploads (vs : List (Option FieldValue)) : List UploadedFile :=
  vs.filterMap fun v => v.bind FieldValue.file?

/-- What the statement that reads a field from a multipart form does. -/
def FieldRead.run (form : MultipartForm) (w : Workspace) (g : FieldRead) :
    Workspace × Except BodyError (Option FieldValue) :=
  match g.kind, g.required with
  | .scalar p, true =>
    (w, (form.required g.wire (Scalar.read? p)).map fun v => some (.scalar v))
  | .scalar p, false =>
    (w, (form.optional g.wire (Scalar.read? p)).map fun v => v.map .scalar)
  | .file, true =>
    let (w, r) := form.requiredFile g.wire w
    (w, r.map fun u => some (.file u))
  | .file, false =>
    let (w, r) := form.optionalFile g.wire w
    (w, r.map fun u => u.map .file)

/-- What statements that read fields do: the first one that fails ends them. -/
def runReads (form : MultipartForm) (w : Workspace) :
    List FieldRead → Workspace × Except BodyError (List (Option FieldValue))
  | [] => (w, .ok [])
  | g :: gs =>
    match g.run form w with
    | (w, .error e) => (w, .error e)
    | (w, .ok v) =>
      let (w, r) := runReads form w gs
      (w, r.map (v :: ·))

/-- What the statements that read a form do. -/
def FormRead.run (form : MultipartForm) (w : Workspace) (f : FormRead) :
    Workspace × Except BodyError (List (Option FieldValue)) :=
  runReads form w f.reads

/-! ### What the text of a statement does -/

/-- What a statement does that reads a field from a multipart form: the call that its text makes,
with the wire name and the parser that stand in it. -/
inductive Executes (form : MultipartForm) (w : Workspace) :
    Code → Workspace × Except BodyError (Option FieldValue) → Prop
  | required {name wire : String} {parser : Code} {q : Primitive} (h : (parser, q) ∈ parsers) :
      Executes form w
        (flat "let" ++ word name ++
          (flat "= form.required(" ++ literal wire ++ (flat "," ++ parser ++ flat ")?;")))
        (w, (form.required wire (Scalar.read? q)).map fun v => some (.scalar v))
  | optional {name wire : String} {parser : Code} {q : Primitive} (h : (parser, q) ∈ parsers) :
      Executes form w
        (flat "let" ++ word name ++
          (flat "= form.optional(" ++ literal wire ++ (flat "," ++ parser ++ flat ")?;")))
        (w, (form.optional wire (Scalar.read? q)).map fun v => v.map .scalar)
  | requiredFile {name wire : String} :
      Executes form w
        (flat "let" ++ word name ++
          (flat "= models::FileUpload::from(form.required_file(" ++ literal wire ++
            flat ", &mut cleanup).await?);"))
        ((form.requiredFile wire w).1, (form.requiredFile wire w).2.map fun u => some (.file u))
  | optionalFile {name wire : String} :
      Executes form w
        (flat "let" ++ word name ++
          (flat "= form.optional_file(" ++ literal wire ++
            flat ", &mut cleanup).await?.map(models::FileUpload::from);"))
        ((form.optionalFile wire w).1, (form.optionalFile wire w).2.map fun u => u.map .file)

/-- What statements do one after the other.  The `?` in a statement that fails leaves all of
them. -/
inductive ExecutesAll (form : MultipartForm) :
    Workspace → List Code → Workspace × Except BodyError (List (Option FieldValue)) → Prop
  | done {w : Workspace} : ExecutesAll form w [] (w, .ok [])
  | fails {w w' : Workspace} {c : Code} {cs : List Code} {e : BodyError}
      (h : Executes form w c (w', .error e)) : ExecutesAll form w (c :: cs) (w', .error e)
  | goesOn {w w' w'' : Workspace} {c : Code} {cs : List Code} {v : Option FieldValue}
      {r : Except BodyError (List (Option FieldValue))} (h : Executes form w c (w', .ok v))
      (hs : ExecutesAll form w' cs (w'', r)) : ExecutesAll form w (c :: cs) (w'', r.map (v :: ·))

/-- What stands before the wire name in the statements that read fields. -/
def fieldReaders : List Code :=
  [flat "= form.required(", flat "= form.optional(",
    flat "= models::FileUpload::from(form.required_file(", flat "= form.optional_file("]

section Executions

variable {form : MultipartForm} {w : Workspace} {g : FieldRead} {gs : List FieldRead}
  {c : Code} {cs : List Code}

/-- A statement has one reader and one wire name, and ends in one way. -/
theorem eq_of_fieldReaders {reader reader' rest rest' : Code} {name name' wire wire' : String}
    (h : reader ∈ fieldReaders) (h' : reader' ∈ fieldReaders)
    (hcode : flat "let" ++ word name ++ (reader ++ literal wire ++ rest) =
      flat "let" ++ word name' ++ (reader' ++ literal wire' ++ rest')) :
    reader = reader' ∧ wire = wire' ∧ rest = rest' := by
  have hall : ∀ f ∈ fieldReaders, ∀ g ∈ fieldReaders, f <+: g ∨ g <+: f → f = g := by
    decide +kernel
  have hbehind := (List.append_inj hcode rfl).2
  simp only [List.append_assoc] at hbehind
  obtain rfl : reader = reader' := hall _ h _ h'
    (List.prefix_or_prefix_of_prefix (List.prefix_append _ _) ⟨_, hbehind.symm⟩)
  have hname := List.append_cancel_left hbehind
  obtain ⟨hwire, hrest⟩ := List.append_inj hname rfl
  exact ⟨rfl, Token.text.inj (List.singleton_inj.1 hwire), hrest⟩

/-- The text of a read does what the read is. -/
theorem executes_run (form : MultipartForm) (w : Workspace) (h : FieldReadText g c) :
    Executes form w c (g.run form w) := by
  cases h with
  | required hparser => exact .required hparser
  | optional hparser => exact .optional hparser
  | requiredFile => exact .requiredFile
  | optionalFile => exact .optionalFile

/-- The text of a read does nothing else. -/
theorem eq_run_of_executes {out : Workspace × Except BodyError (Option FieldValue)}
    (h : FieldReadText g c) (hexecutes : Executes form w c out) : out = g.run form w := by
  have hmem : ∀ i : Fin 4, fieldReaders[i] ∈ fieldReaders := fun i => List.getElem_mem i.isLt
  have hparsers : ∀ {parser parser' : Code} {q q' : Primitive}, (parser, q) ∈ parsers →
      (parser', q') ∈ parsers →
      flat "," ++ parser ++ flat ")?;" = flat "," ++ parser' ++ flat ")?;" → q = q' := by
    intro parser parser' q q' hq hq' heq
    have hend : flat ")?;" = flat ")?" ++ flat ";" := rfl
    rw [hend, ← List.append_assoc, ← List.append_assoc] at heq
    exact eq_of_parsers hq hq' (List.append_cancel_right heq)
  cases h with
  | @required ident wire q parser hq =>
      generalize hc : flat "let" ++ word ("field_" ++ ident) ++ (flat "= form.required(" ++
        literal wire ++ (flat "," ++ parser ++ flat ")?;")) = c at hexecutes
      cases hexecutes with
      | required hq' =>
          obtain ⟨-, rfl, hrest⟩ := eq_of_fieldReaders (hmem 0) (hmem 0) hc
          rw [hparsers hq hq' hrest]
          rfl
      | optional _ => exact absurd (eq_of_fieldReaders (hmem 0) (hmem 1) hc).1 (by decide +kernel)
      | requiredFile => exact absurd (eq_of_fieldReaders (hmem 0) (hmem 2) hc).1 (by decide +kernel)
      | optionalFile => exact absurd (eq_of_fieldReaders (hmem 0) (hmem 3) hc).1 (by decide +kernel)
  | @optional ident wire q parser hq =>
      generalize hc : flat "let" ++ word ("field_" ++ ident) ++ (flat "= form.optional(" ++
        literal wire ++ (flat "," ++ parser ++ flat ")?;")) = c at hexecutes
      cases hexecutes with
      | required _ => exact absurd (eq_of_fieldReaders (hmem 1) (hmem 0) hc).1 (by decide +kernel)
      | optional hq' =>
          obtain ⟨-, rfl, hrest⟩ := eq_of_fieldReaders (hmem 1) (hmem 1) hc
          rw [hparsers hq hq' hrest]
          rfl
      | requiredFile => exact absurd (eq_of_fieldReaders (hmem 1) (hmem 2) hc).1 (by decide +kernel)
      | optionalFile => exact absurd (eq_of_fieldReaders (hmem 1) (hmem 3) hc).1 (by decide +kernel)
  | @requiredFile ident wire =>
      generalize hc : flat "let" ++ word ("field_" ++ ident) ++
        (flat "= models::FileUpload::from(form.required_file(" ++ literal wire ++
          flat ", &mut cleanup).await?);") = c at hexecutes
      cases hexecutes with
      | required _ => exact absurd (eq_of_fieldReaders (hmem 2) (hmem 0) hc).1 (by decide +kernel)
      | optional _ => exact absurd (eq_of_fieldReaders (hmem 2) (hmem 1) hc).1 (by decide +kernel)
      | requiredFile =>
          obtain ⟨-, rfl, -⟩ := eq_of_fieldReaders (hmem 2) (hmem 2) hc
          rfl
      | optionalFile => exact absurd (eq_of_fieldReaders (hmem 2) (hmem 3) hc).1 (by decide +kernel)
  | @optionalFile ident wire =>
      generalize hc : flat "let" ++ word ("field_" ++ ident) ++ (flat "= form.optional_file(" ++
        literal wire ++ flat ", &mut cleanup).await?.map(models::FileUpload::from);") =
          c at hexecutes
      cases hexecutes with
      | required _ => exact absurd (eq_of_fieldReaders (hmem 3) (hmem 0) hc).1 (by decide +kernel)
      | optional _ => exact absurd (eq_of_fieldReaders (hmem 3) (hmem 1) hc).1 (by decide +kernel)
      | requiredFile => exact absurd (eq_of_fieldReaders (hmem 3) (hmem 2) hc).1 (by decide +kernel)
      | optionalFile =>
          obtain ⟨-, rfl, -⟩ := eq_of_fieldReaders (hmem 3) (hmem 3) hc
          rfl

theorem executes_iff (h : FieldReadText g c)
    {out : Workspace × Except BodyError (Option FieldValue)} :
    Executes form w c out ↔ out = g.run form w :=
  ⟨eq_run_of_executes h, fun hout => hout ▸ executes_run form w h⟩

/-- The texts of reads do what the reads are, and nothing else. -/
theorem executesAll_iff (h : List.Forall₂ FieldReadText gs cs)
    {out : Workspace × Except BodyError (List (Option FieldValue))} :
    ExecutesAll form w cs out ↔ out = runReads form w gs := by
  induction h generalizing w out with
  | nil =>
      constructor
      · rintro ⟨⟩
        rfl
      · rintro rfl
        exact .done
  | @cons g c gs cs hg _ ih =>
      constructor
      · intro hout
        cases hout with
        | fails he =>
            have hrun := (executes_iff hg).1 he
            rw [runReads, ← hrun]
        | goesOn hv hs =>
            have hrun := (executes_iff hg).1 hv
            have hrest := ih.1 hs
            rw [runReads, ← hrun]
            simp only [← hrest]
      · rintro rfl
        have hfirst := executes_run form w hg
        rw [runReads]
        rcases hrun : g.run form w with ⟨w', e | v⟩
        · rw [hrun] at hfirst
          exact .fails hfirst
        · rw [hrun] at hfirst
          exact .goesOn hfirst (ih.2 rfl)

end Executions

/-! ### One read -/

section Reads

variable {form : MultipartForm} {w w' : Workspace} {g : FieldRead} {gs hs : List FieldRead}
  {v : Option FieldValue} {vs : List (Option FieldValue)} {e : BodyError}

/-- A scalar is read without the disk, and is no file. -/
theorem FieldRead.run_scalar (form : MultipartForm) (h : g.isFile = false) :
    ∃ r, (∀ w, g.run form w = (w, r)) ∧ ∀ v, r = .ok v → v.bind FieldValue.file? = none := by
  obtain ⟨ident, wire, required, kind⟩ := g
  cases kind with
  | file => cases h
  | scalar p =>
      cases required with
      | true =>
          refine ⟨_, fun _ => rfl, fun v hv => ?_⟩
          obtain ⟨x, -, rfl⟩ := map_eq_ok.1 hv
          rfl
      | false =>
          refine ⟨_, fun _ => rfl, fun v hv => ?_⟩
          obtain ⟨x, -, rfl⟩ := map_eq_ok.1 hv
          cases x <;> rfl

/-- A part that is given is stored, and one that is not is no failure. -/
theorem optionalFile_registered (form : MultipartForm) (name : String) (w : Workspace) :
    (∃ e, form.optionalFile name w = (w, .error e)) ∨
      form.optionalFile name w = (w, .ok none) ∨
      ∃ w' u p, form.optionalFile name w = (w', .ok (some u)) ∧
        Registered w [(u.path, p)] w' := by
  unfold MultipartForm.optionalFile
  cases form.part? name with
  | none => exact Or.inr (Or.inl rfl)
  | some part =>
      rcases store_cases w part with ⟨e, he⟩ | ⟨p, u, hfree, hu⟩
      · simp only [he]
        exact Or.inl ⟨.io e, rfl⟩
      · simp only [hu]
        exact Or.inr (Or.inr ⟨_, u, p, rfl, .single hfree part.data⟩)

/-- The files that were read are those that were made, and all of them are to be removed. -/
def Uploaded (w : Workspace) (us : List UploadedFile) (w' : Workspace) : Prop :=
  ∃ made, made.map Prod.fst = us.map (·.path) ∧ Registered w made w'

/-- When everything that was put off is done, every place is as it was and nothing has failed. -/
theorem Uploaded.cleaned {us : List UploadedFile} (h : Uploaded w us w') (hw : w.registry = {}) :
    (w'.registry.cleanup w'.disk).failures = 0 ∧
      ∀ q, (w'.registry.cleanup w'.disk).disk.at? q = w.disk.at? q := by
  obtain ⟨made, -, hmade⟩ := h
  obtain ⟨d, hrun, hd⟩ := hmade.cleanup
  have hpending : w'.registry.pending = made.map fun m => .removeFile m.1 := by
    rw [hmade.pending, hw]
    rfl
  have hcleanup : w'.registry.cleanup w'.disk =
      { registry := {}, disk := d, report := made.map fun m => (.removeFile m.1, false) } := by
    rw [Cleanup.Registry.cleanup, hpending, hrun]
  rw [hcleanup]
  refine ⟨?_, hd⟩
  rw [Cleanup.Outcome.failures, List.countP_eq_zero]
  intro r hr
  obtain ⟨m, -, rfl⟩ := List.mem_map.1 hr
  exact Bool.false_ne_true

/-- A read fails and leaves everything, or makes the file that it gives. -/
theorem FieldRead.run_cases (form : MultipartForm) (w : Workspace) (g : FieldRead) :
    (∃ e, g.run form w = (w, .error e)) ∨
      ∃ w' v, g.run form w = (w', .ok v) ∧ Uploaded w (v.bind FieldValue.file?).toList w' := by
  cases hfile : g.isFile with
  | false =>
      obtain ⟨r, hrun, hnone⟩ := run_scalar form hfile
      cases r with
      | error e => exact Or.inl ⟨e, hrun w⟩
      | ok v =>
          refine Or.inr ⟨w, v, hrun w, [], ?_, .refl w⟩
          rw [hnone v rfl]
          rfl
  | true =>
      obtain ⟨ident, wire, required, kind⟩ := g
      obtain rfl : kind = .file := by simpa [FieldRead.isFile] using hfile
      cases required with
      | true =>
          unfold FieldRead.run MultipartForm.requiredFile
          rcases optionalFile_registered form wire w with
            ⟨e, he⟩ | hnone | ⟨w', u, p, hu, hmade⟩
          · simp only [he]
            exact Or.inl ⟨e, rfl⟩
          · simp only [hnone]
            exact Or.inl ⟨_, rfl⟩
          · simp only [hu]
            exact Or.inr ⟨w', _, rfl, [(u.path, p)], rfl, hmade⟩
      | false =>
          unfold FieldRead.run
          rcases optionalFile_registered form wire w with
            ⟨e, he⟩ | hnone | ⟨w', u, p, hu, hmade⟩
          · simp only [he]
            exact Or.inl ⟨e, rfl⟩
          · simp only [hnone]
            exact Or.inr ⟨w, none, rfl, [], rfl, .refl w⟩
          · simp only [hu]
            exact Or.inr ⟨w', _, rfl, [(u.path, p)], rfl, hmade⟩

/-! ### Several reads -/

theorem runReads_cons_of_error (h : g.run form w = (w', .error e)) :
    runReads form w (g :: gs) = (w', .error e) := by
  rw [runReads, h]

theorem runReads_cons_of_ok (h : g.run form w = (w', .ok v)) :
    runReads form w (g :: gs) = ((runReads form w' gs).1,
      (runReads form w' gs).2.map (v :: ·)) := by
  rw [runReads, h]

/-- A read that fails after others that succeed ends the reads. -/
theorem runReads_of_fails {before after : List FieldRead} {w₁ w₂ : Workspace}
    (hbefore : runReads form w before = (w₁, .ok vs)) (hg : g.run form w₁ = (w₂, .error e)) :
    runReads form w (before ++ g :: after) = (w₂, .error e) := by
  induction before generalizing w vs with
  | nil =>
      obtain ⟨rfl, -⟩ := Prod.mk.inj hbefore
      exact runReads_cons_of_error hg
  | cons h hs ih =>
      rcases hrun : h.run form w with ⟨w', e' | v⟩
      · rw [runReads_cons_of_error hrun] at hbefore
        cases hbefore
      · rw [runReads_cons_of_ok hrun] at hbefore
        obtain ⟨hw, hvs⟩ := Prod.mk.inj hbefore
        obtain ⟨us, hus, -⟩ := map_eq_ok.1 hvs
        have hrest : runReads form w' hs = (w₁, .ok us) := Prod.ext hw hus
        rw [List.cons_append, runReads_cons_of_ok hrun, ih hrest]
        rfl

/-- Reads either all succeed, and every file that was made is one that was read, or there is a first
one that fails. -/
theorem runReads_cases (form : MultipartForm) (w : Workspace) (gs : List FieldRead) :
    (∃ w' vs, runReads form w gs = (w', .ok vs) ∧ Uploaded w (uploads vs) w') ∨
      ∃ before g after w' vs e, gs = before ++ g :: after ∧
        runReads form w before = (w', .ok vs) ∧ g.run form w' = (w', .error e) ∧
        runReads form w gs = (w', .error e) ∧ Uploaded w (uploads vs) w' := by
  induction gs generalizing w with
  | nil => exact Or.inl ⟨w, [], rfl, [], rfl, .refl w⟩
  | cons g gs ih =>
      rcases g.run_cases form w with ⟨e, he⟩ | ⟨w', v, hv, made, hpaths, hmade⟩
      · exact Or.inr ⟨[], g, gs, w, [], e, rfl, rfl, he, runReads_cons_of_error he, [],
          rfl, .refl w⟩
      · have hextend : ∀ {w'' : Workspace} {vs : List (Option FieldValue)},
            Uploaded w' (uploads vs) w'' → Uploaded w (uploads (v :: vs)) w'' := by
          rintro w'' vs ⟨made', hpaths', hmade'⟩
          refine ⟨made ++ made', ?_, hmade.trans hmade'⟩
          rw [List.map_append, hpaths, hpaths', ← List.map_append]
          refine congrArg (List.map _) ?_
          cases hv : v.bind FieldValue.file? <;> simp [uploads, hv]
        rcases ih w' with
          ⟨w'', vs, hvs, hup⟩ | ⟨before, h, after, w'', vs, e, rfl, hbefore, hh, hgs, hup⟩
        · refine Or.inl ⟨w'', v :: vs, ?_, hextend hup⟩
          rw [runReads_cons_of_ok hv, hvs]
          rfl
        · refine Or.inr ⟨g :: before, h, after, w'', v :: vs, e, rfl, ?_, hh, ?_, hextend hup⟩
          · rw [runReads_cons_of_ok hv, hbefore]
            rfl
          · rw [runReads_cons_of_ok hv, hgs]
            rfl

/-- Where scalars come first, a scalar that cannot be read ends the reads before any file is
made. -/
theorem runReads_of_scalar_fails (hfirst : gs.Pairwise fun g h => g.isFile = true → h.isFile = true)
    (hg : g ∈ gs) (hscalar : g.isFile = false) (he : (g.run form w).2 = .error e) :
    ∃ h ∈ gs, h.isFile = false ∧ ∃ e', (h.run form w).2 = .error e' ∧
      runReads form w gs = (w, .error e') := by
  induction gs with
  | nil => cases hg
  | cons h hs ih =>
      have hh : h.isFile = false := by
        rcases List.mem_cons.1 hg with rfl | hmem
        · exact hscalar
        · by_contra hfile
          have := List.rel_of_pairwise_cons hfirst hmem (Bool.eq_true_of_not_eq_false hfile)
          rw [hscalar] at this
          cases this
      obtain ⟨r, hrun, -⟩ := FieldRead.run_scalar form hh
      cases r with
      | error e' =>
          exact ⟨h, List.mem_cons_self, hh, e', congrArg Prod.snd (hrun w),
            runReads_cons_of_error (hrun w)⟩
      | ok v =>
          have hmem : g ∈ hs := by
            rcases List.mem_cons.1 hg with rfl | hmem
            · rw [hrun w] at he
              cases he
            · exact hmem
          obtain ⟨k, hk, hkscalar, e', hke, hks⟩ := ih hfirst.of_cons hmem
          refine ⟨k, List.mem_cons_of_mem _ hk, hkscalar, e', hke, ?_⟩
          rw [runReads_cons_of_ok (hrun w), hks]
          rfl

end Reads

/-! ### A form -/

namespace FormRead

/-- Every field is read once. -/
theorem perm_reads (f : FormRead) : f.reads.Perm f.fields :=
  List.perm_append_comm.trans (List.filter_append_perm (·.isFile) f.fields)

/-- After a file only files are read. -/
theorem pairwise_reads (f : FormRead) :
    f.reads.Pairwise fun g h => g.isFile = true → h.isFile = true := by
  refine List.pairwise_append.2 ⟨?_, ?_, fun g _ h hh _ => (List.mem_filter.1 hh).2⟩
  · refine List.pairwise_iff_forall_sublist.2 fun {g _} hs hfile => ?_
    have hscalar := (List.mem_filter.1 (hs.subset List.mem_cons_self)).2
    rw [hfile] at hscalar
    cases hscalar
  · refine List.pairwise_iff_forall_sublist.2 fun {_ h} hs _ => ?_
    exact (List.mem_filter.1 (hs.subset (List.mem_cons_of_mem _ List.mem_cons_self))).2

end FormRead

/-- What the statements that read a form, of which the texts are given, make of the disk and of what
is put off. -/
structure ForgetsNoFile (f : FormRead) (texts : List Code) (form : MultipartForm) (w : Workspace) :
    Prop where
  /-- Each statement does what the read does, and all of them what running the reads does. -/
  runs : ∀ w', List.Forall₂ (fun g text => ∀ out, Executes form w' text out ↔ out = g.run form w')
    f.reads texts
  executes : ∀ out, ExecutesAll form w texts out ↔ out = f.run form w
  /-- Where a scalar cannot be read, no file is made and no removal is put off. -/
  scalar_fails : ∀ g ∈ f.fields, g.isFile = false → ∀ e, (g.run form w).2 = .error e →
    ∃ h ∈ f.fields, h.isFile = false ∧ ∃ e', (h.run form w).2 = .error e' ∧
      f.run form w = (w, .error e')
  /-- Where a read fails after others, every file that these have made is to be removed. -/
  later_fails : ∀ before g after w₁ vs e, f.reads = before ++ g :: after →
    runReads form w before = (w₁, .ok vs) → (g.run form w₁).2 = .error e →
    f.run form w = (w₁, .error e) ∧ Uploaded w (uploads vs) w₁
  /-- There is no other way to fail. -/
  fails : ∀ w₁ e, f.run form w = (w₁, .error e) →
    ∃ before g after vs, f.reads = before ++ g :: after ∧
      runReads form w before = (w₁, .ok vs) ∧ (g.run form w₁).2 = .error e
  succeeds : ∀ w₁ vs, f.run form w = (w₁, .ok vs) → Uploaded w (uploads vs) w₁
  /-- However the reads end, doing what was put off leaves every place as it was. -/
  cleaned : w.registry = {} → ∀ w₁ r, f.run form w = (w₁, r) →
    (w₁.registry.cleanup w₁.disk).failures = 0 ∧
      ∀ q, (w₁.registry.cleanup w₁.disk).disk.at? q = w.disk.at? q

section Runs

variable {form : MultipartForm} {w w' : Workspace} {gs : List FieldRead}
  {vs : List (Option FieldValue)} {g : FieldRead} {e : BodyError}

theorem uploaded_of_runReads (h : runReads form w gs = (w', .ok vs)) :
    Uploaded w (uploads vs) w' := by
  rcases runReads_cases form w gs with ⟨w₁, us, hrun, hup⟩ | ⟨_, _, _, w₁, us, e, -, -, -, hrun, -⟩
  · rw [hrun] at h
    obtain ⟨rfl, hus⟩ := Prod.mk.inj h
    obtain rfl := Except.ok.inj hus
    exact hup
  · rw [hrun] at h
    cases h

/-- A read that fails leaves everything. -/
theorem FieldRead.run_of_error (h : (g.run form w).2 = .error e) :
    g.run form w = (w, .error e) := by
  rcases g.run_cases form w with ⟨e', he'⟩ | ⟨w', v, hv, -⟩
  · rw [he'] at h ⊢
    exact congrArg (Prod.mk w) h
  · rw [hv] at h
    cases h

theorem FormRead.forgetsNoFile {f : FormRead} {texts : List Code}
    (htexts : List.Forall₂ FieldReadText f.reads texts) (form : MultipartForm) (w : Workspace) :
    ForgetsNoFile f texts form w where
  runs w' := htexts.imp fun g text htext out => executes_iff htext
  executes out := executesAll_iff htexts
  scalar_fails g hg hscalar e he := by
    obtain ⟨h, hh, hhscalar, e', he', hrun⟩ := runReads_of_scalar_fails f.pairwise_reads
      (f.perm_reads.mem_iff.2 hg) hscalar he
    exact ⟨h, f.perm_reads.mem_iff.1 hh, hhscalar, e', he', hrun⟩
  later_fails before g after w₁ vs e hreads hbefore he := by
    refine ⟨?_, uploaded_of_runReads hbefore⟩
    rw [FormRead.run, hreads]
    exact runReads_of_fails hbefore (FieldRead.run_of_error he)
  fails w₁ e h := by
    rcases runReads_cases form w f.reads with
      ⟨w', us, hrun, -⟩ | ⟨before, g, after, w', us, e', hreads, hbefore, hg, hrun, -⟩
    · rw [FormRead.run, hrun] at h
      cases h
    · rw [FormRead.run, hrun] at h
      obtain ⟨rfl, he⟩ := Prod.mk.inj h
      obtain rfl := Except.error.inj he
      exact ⟨before, g, after, us, hreads, hbefore, congrArg Prod.snd hg⟩
  succeeds w₁ vs h := uploaded_of_runReads h
  cleaned hw w₁ r h := by
    rcases runReads_cases form w f.reads with
      ⟨w', us, hrun, hup⟩ | ⟨_, _, _, w', us, e, -, -, -, hrun, hup⟩
    all_goals
      rw [FormRead.run, hrun] at h
      obtain ⟨rfl, -⟩ := Prod.mk.inj h
      exact hup.cleaned hw

end Runs

/-! ## What a handler reads -/

/-- A form is read property by property, and its record is made of all of them. -/
structure ReadsForm (refs : RefTable) (media : Media) (ps : List Property) (f : FormRead)
    (texts : List Code) (code : Code) : Prop where
  /-- The reads are those of the properties, each once. -/
  reads : ∃ qs, qs.Perm ps ∧ List.Forall₂ (ReadsProperty refs) qs f.reads
  /-- No scalar is read after a file. -/
  scalars_first : f.reads.Pairwise fun g h => g.isFile = true → h.isFile = true
  /-- The record has the properties in their order. -/
  members : List.Forall₂ (ReadsProperty refs) ps f.fields
  /-- Only parts are read as files. -/
  multipart : ∀ g ∈ f.fields, g.isFile = true → media = .multipart
  /-- What is printed for a read calls the reader for what the field holds, with its wire name. -/
  printed : List.Forall₂ FieldReadText f.reads texts
  /-- The reads stand in the code in their order, and after them the record. -/
  statements :
    (if media = .multipart then flat "let form = ::bindery::read_multipart(request).await?;"
      else flat "let form = ::bindery::read_form(request).await?;") ++
      (texts.flatten ++ (flat "let record = models::" ++ word f.record ++
        (braces (commas (f.fields.map fun g =>
          word g.ident ++ flat ":" ++ word ("field_" ++ g.ident))) ++ flat ";"))) <:+: code

section Handlers

variable {refs : RefTable} {o : Operation} {k : Handler} {b : BodyDispatch} {a : BodyArm}
  {f : FormRead}

/-- A file is read from a multipart form only. -/
theorem multipart_of_isFile {multipart : Bool} {p : Property} {g : FieldRead}
    (h : fieldRead refs multipart p = .ok g) (hfile : g.isFile = true) : multipart = true := by
  have hkind : g.kind = .file := by simpa [FieldRead.isFile] using hfile
  obtain ⟨-, -, -, ⟨-, hp⟩ | ⟨q, hq, -⟩⟩ := fieldRead_eq_ok h
  · rw [fieldRead_file hp] at h
    by_contra hm
    rw [if_neg hm] at h
    cases h
  · rw [hkind] at hq
    cases hq

theorem readsForm_of_bodyArm {media : Media} {t : Descriptor} (h : bodyArm refs media t = .ok a)
    (hf : a.read.form? = some f) (className : String) (required : Bool) :
    a.media = media ∧ (media = .form ∨ media = .multipart) ∧
      ∃ ps texts, refs.resolve? t = some (.object (some f.record) ps) ∧
        ReadsForm refs media ps f texts (a.code className required) := by
  have hmedia := media_of_form h hf
  obtain ⟨f', hread, hsame, -, ha⟩ := (bodyArm_eq_ok_iff hmedia).1 h
  have hform : a.read.form? = some f' := by
    rw [ha]
    split <;> rfl
  obtain rfl := Option.some.inj (hform.symm.trans hf)
  obtain ⟨ps, -, hps, hfields⟩ := formRead_eq_ok hread
  have hmembers : List.Forall₂ (ReadsProperty refs) ps f'.fields :=
    hfields.imp fun _ _ => readsProperty_of_fieldRead
  obtain ⟨qs, hqs, hperm⟩ := List.perm_comp_forall₂ f'.perm_reads hmembers.flip
  have hstatements := BodyArm.form_infix hf className required
  obtain ⟨texts, hprinted, hcode⟩ : ∃ texts, List.Forall₂ FieldReadText f'.reads texts ∧
      f'.code a.read.source = (if media = .multipart
          then flat "let form = ::bindery::read_multipart(request).await?;"
          else flat "let form = ::bindery::read_form(request).await?;") ++
        (texts.flatten ++ (flat "let record = models::" ++ word f'.record ++
          (braces (commas (f'.fields.map fun g =>
            word g.ident ++ flat ":" ++ word ("field_" ++ g.ident))) ++ flat ";"))) := by
    have htext := FormRead.text hf
    generalize f'.code a.read.source = c at htext ⊢
    rw [ha] at htext
    by_cases hm : media = .multipart
    · simp only [if_pos hm] at htext ⊢
      cases htext with
      | multipart h =>
          obtain ⟨texts, htexts, rfl⟩ := h
          exact ⟨texts, htexts, rfl⟩
    · simp only [if_neg hm] at htext ⊢
      cases htext with
      | form h =>
          obtain ⟨texts, htexts, rfl⟩ := h
          exact ⟨texts, htexts, rfl⟩
  rw [hcode] at hstatements
  refine ⟨hsame, hmedia, ps, texts, hps, ⟨qs, hperm, hqs.flip⟩, f'.pairwise_reads, hmembers, ?_,
    hprinted, hstatements⟩
  intro g hg hfile
  obtain ⟨p, -, hp⟩ := exists_of_mem_right hfields hg
  exact eq_of_beq (multipart_of_isFile hp hfile)

/-- A handler that is generated reads every property of a form once, by its wire name and as what it
is, scalars before files, and puts every property into the record.  When a multipart form is read, a
scalar that cannot be read ends it before anything is made, and whatever else ends it, every file
that was made is to be removed. -/
theorem form_reads (hk : handler refs o = .ok k) (hb : k.body = some b) (ha : a ∈ b.arms)
    (hf : a.read.form? = some f) (contract : String) :
    ∃ texts,
      (∃ rb t ps, o.requestBody = some rb ∧ (a.media, t) ∈ rb.content ∧
        (a.media = .form ∨ a.media = .multipart) ∧
        refs.resolve? t = some (.object (some f.record) ps) ∧
        ReadsForm refs a.media ps f texts (k.code contract)) ∧
      ((∃ g ∈ f.fields, g.isFile = true) → k.cleansUp = true) ∧
      ∀ form w, ForgetsNoFile f texts form w := by
  obtain ⟨_, -, hof⟩ := handler_eq_ok hk
  have hbody := hof.body
  rw [hb] at hbody
  obtain ⟨rb, hrequest, hrb⟩ := exists_of_rel_some_right hbody
  obtain ⟨-, -, harms⟩ := bodyDispatch_eq_ok hrb
  obtain ⟨⟨media, t⟩, ht, harm⟩ := exists_of_mem_right harms ha
  obtain ⟨rfl, hmedia, ps, texts, hps, hreads⟩ :=
    readsForm_of_bodyArm harm hf b.className b.required
  have hinput : Input.body b ∈ k.inputs := by
    refine List.mem_append_right _ (List.mem_map.2 ⟨b, ?_, rfl⟩)
    rw [hb]
    exact List.mem_singleton.2 rfl
  have hcode : a.code b.className b.required <:+: k.code contract :=
    (BodyDispatch.arm_infix ha).trans (Handler.infix_of_mem_inputs hinput _)
  refine ⟨texts, ⟨rb, t, ps, hrequest, ht, hmedia, hps,
    { hreads with statements := hreads.statements.trans hcode }⟩, ?_,
    FormRead.forgetsNoFile hreads.printed⟩
  rintro ⟨g, hg, hfile⟩
  refine hof.cleansUp ?_
  rw [hb]
  have hm := hreads.multipart g hg hfile
  obtain ⟨f', -, -, -, hread⟩ := (bodyArm_eq_ok_iff hmedia).1 harm
  rw [if_pos hm] at hread
  have hff : f' = f := by
    rw [hread] at hf
    exact Option.some.inj hf
  refine List.any_eq_true.2 ⟨a, ha, ?_⟩
  rw [hread, hff]
  exact List.any_eq_true.2 ⟨g, hg, hfile⟩

open Resolve (reportMetadata reportOperation) in
theorem form_reads_report :
    ∃ k b a f, handler reportMetadata.refs reportOperation = .ok k ∧ k.body = some b ∧ a ∈ b.arms ∧
      a.read.form? = some f ∧ f.fields.length = 2 ∧ ∃ texts,
      (∃ rb t ps, reportOperation.requestBody = some rb ∧ (a.media, t) ∈ rb.content ∧
        (a.media = .form ∨ a.media = .multipart) ∧
        reportMetadata.refs.resolve? t = some (.object (some f.record) ps) ∧
        ReadsForm reportMetadata.refs a.media ps f texts (k.code "ApiContract")) ∧
      ((∃ g ∈ f.fields, g.isFile = true) → k.cleansUp = true) ∧
      ∀ form w, ForgetsNoFile f texts form w := by
  have hk : ∃ k b a f, handler reportMetadata.refs reportOperation = .ok k ∧ k.body = some b ∧
      a ∈ b.arms ∧ a.read.form? = some f ∧ f.fields.length = 2 :=
    ⟨_, _, _, _, rfl, rfl, List.mem_cons_self, rfl, rfl⟩
  obtain ⟨k, b, a, f, hk, hb, ha, hf, hlength⟩ := hk
  exact ⟨k, b, a, f, hk, hb, ha, hf, hlength, form_reads hk hb ha hf "ApiContract"⟩

end Handlers

/-! ## The form for avatars -/

/-- The form with which an avatar is sent. -/
def avatarForm : FormRead where
  record := "AvatarUpload"
  fields := [
    { ident := "photo", wire := "photo", required := true, kind := .file },
    { ident := "description", wire := "description", required := true, kind := .scalar .string }]

/-- Where what is read is given another form, so is the value of the field. -/
theorem required_map {α β : Type} (form : MultipartForm) (name : String) (read : String → Option α)
    (give : α → β) :
    form.required name (fun s => (read s).map give) = (form.required name read).map give := by
  unfold MultipartForm.required MultipartForm.optional
  cases form.text name with
  | error e => rfl
  | ok raw =>
      cases raw with
      | none => rfl
      | some s =>
          by_cases hs : s = ""
          · simp [Form.readOptional, hs, Form.present, Except.map]
          · cases h : read s <;> simp [Form.readOptional, hs, h, Form.present, Except.map]

/-- The handler of avatars runs the reads of its form. -/
theorem run_avatarForm (form : MultipartForm) (w : Workspace) :
    avatarForm.run form w =
      ((PetStore.readAvatarForm form w).1, (PetStore.readAvatarForm form w).2.map fun r =>
        [some (.scalar (.text r.2)), some (.file r.1)]) := by
  have hreads : avatarForm.reads = [
      { ident := "description", wire := "description", required := true, kind := .scalar .string },
      { ident := "photo", wire := "photo", required := true, kind := .file }] := rfl
  have htext : form.required "description" (Scalar.read? .string) =
      (form.required "description" Scalar.readText?).map .text :=
    required_map form "description" Scalar.readText? Scalar.text
  rw [FormRead.run, hreads]
  unfold PetStore.readAvatarForm
  simp only [runReads, FieldRead.run, htext]
  cases form.required "description" Scalar.readText? with
  | error e => rfl
  | ok description =>
      rcases hphoto : form.requiredFile "photo" w with ⟨w', e | photo⟩ <;>
        simp only [Except.map, hphoto]

/-- The form is read from the record that the body of the request stands for. -/
example :
    formRead .empty true (.object (some "AvatarUpload")
      [{ name := "photo", type := .fileUpload, required := true },
        { name := "description", type := .primitive .string, required := true }]) =
          .ok avatarForm :=
  rfl

end Emit
end ApiContract
