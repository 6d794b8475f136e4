import ApiContract.Proofs.Documents
import ApiContract.Proofs.Reach
import ApiContract.Resolve.Journal

/-!
# What resolution does on record

**Input:** any document.

A journal is sound within a path if the schemas that were expanded are those that are in the table
or on the path.  So a pointer whose schema was expanded is not expanded again, in whichever way it
is met.  A step on record goes together with the step that it notes: from every sound journal it
ends as this does, and never for want of depth.

**Results:**

* `Orderly`: notes in which no schema is expanded twice, and every use of a pointer comes after the
  expansion and gives the pointer;
* `Mirrors`: a step on record that ends as a step of resolution, with sound notes;
* `mirrors_schemas`: the functions that call each other, at the depth that they need;
* `resolve_once`: every document is resolved with finitely many calls, and no schema is expanded
  twice.
-/

namespace ApiContract

theorem RefTable.mem_keys_insert {t : RefTable} {p q : String} {u : Descriptor} :
    q ∈ (t.insert p u).keys ↔ q ∈ t.keys ∨ q = p := by
  by_cases hp : p ∈ t.keys
  · rw [insert, dif_pos (contains_iff.2 hp)]
    exact ⟨Or.inl, fun hq => hq.elim id fun he => he ▸ hp⟩
  · rw [keys_insert hp, List.mem_append, List.mem_singleton]

namespace Resolve

open Document (Schema)

/-! ## Notes -/

/-- No schema is expanded twice, and every use of a pointer comes after the expansion of its schema
and is resolved to the pointer itself. -/
structure Orderly (d : Document) (notes : List Note) : Prop where
  once : (notes.filterMap Note.expanded?).Nodup
  found : ∀ p, .expanded p ∈ notes → ∃ s, d.schema? p = some s
  placeholder : ∀ before p t after, notes = before ++ .used p t :: after →
    t = .ref p ∧ .expanded p ∈ before

namespace Orderly

variable {d : Document} {notes : List Note} {p : String} {s : Schema}

theorem mem_expansions : p ∈ notes.filterMap Note.expanded? ↔ .expanded p ∈ notes := by
  rw [List.mem_filterMap]
  constructor
  · rintro ⟨n, hn, h⟩
    cases n with
    | expanded q =>
        obtain rfl := Option.some.inj h
        exact hn
    | used q t => cases h
  · exact fun h => ⟨_, h, rfl⟩

theorem nil (d : Document) : Orderly d [] where
  once := .nil
  found := nofun
  placeholder before p t after h := by simp at h

/-- A use in a list with one note more is the last note or was there before. -/
theorem split_of_concat {n : Note} {before after : List Note} {t : Descriptor}
    (h : notes ++ [n] = before ++ .used p t :: after) :
    n = .used p t ∧ notes = before ∨ ∃ rest, notes = before ++ .used p t :: rest := by
  rcases List.eq_nil_or_concat after with rfl | ⟨rest, last, rfl⟩
  · obtain ⟨hnotes, hn⟩ := List.append_inj' h rfl
    exact Or.inl ⟨(List.cons.inj hn).1, hnotes⟩
  · have hsame : notes ++ [n] = (before ++ .used p t :: rest) ++ [last] := by
      rw [h, List.append_assoc, List.cons_append, List.concat_eq_append]
    exact Or.inr ⟨rest, (List.append_inj' hsame rfl).1⟩

/-- A schema that was not expanded is expanded. -/
theorem expand (h : Orderly d notes) (hp : .expanded p ∉ notes) (hs : d.schema? p = some s) :
    Orderly d (notes ++ [.expanded p]) where
  once := by
    rw [List.filterMap_append]
    refine h.once.append (List.nodup_singleton p) ?_
    exact List.disjoint_singleton.2 fun hmem => hp (mem_expansions.1 hmem)
  found q hq := by
    rcases List.mem_append.1 hq with hq | hq
    · exact h.found q hq
    · obtain rfl := Note.expanded.inj (List.mem_singleton.1 hq)
      exact ⟨s, hs⟩
  placeholder before q t after hsplit := by
    rcases split_of_concat hsplit with ⟨hn, -⟩ | ⟨rest, hrest⟩
    · cases hn
    · exact h.placeholder before q t rest hrest

/-- A pointer whose schema was expanded is used. -/
theorem use (h : Orderly d notes) (hp : .expanded p ∈ notes) :
    Orderly d (notes ++ [.used p (.ref p)]) where
  once := by
    rw [List.filterMap_append]
    exact (List.append_nil _).symm ▸ h.once
  found q hq := by
    rcases List.mem_append.1 hq with hq | hq
    · exact h.found q hq
    · cases List.mem_singleton.1 hq
  placeholder before q t after hsplit := by
    rcases split_of_concat hsplit with ⟨hn, rfl⟩ | ⟨rest, hrest⟩
    · obtain ⟨rfl, rfl⟩ := Note.used.inj hn
      exact ⟨rfl, hp⟩
    · exact h.placeholder before q t rest hrest

end Orderly

/-- The schemas that were expanded are those in the table and those being resolved. -/
structure Sound (d : Document) (path : List String) (j : Journal) : Prop extends
    Orderly d j.notes where
  expanded_iff : ∀ p, .expanded p ∈ j.notes ↔ p ∈ j.progress.table.keys ∨ p ∈ path

namespace Sound

variable {d : Document} {path : List String} {j : Journal} {p : String} {s : Schema}

theorem empty (d : Document) : Sound d [] {} where
  toOrderly := .nil d
  expanded_iff p := by simp [RefTable.empty, RefTable.keys]

/-- A change of the state that keeps the pointers in the table. -/
theorem advance (h : Sound d path j) {f : Progress → Progress}
    (hf : (f j.progress).table.keys = j.progress.table.keys) :
    Sound d path { j with progress := f j.progress } where
  toOrderly := h.toOrderly
  expanded_iff p := by
    rw [hf]
    exact h.expanded_iff p

theorem use (h : Sound d path j) (hp : p ∈ j.progress.table.keys ∨ p ∈ path) :
    Sound d path { j with notes := j.notes ++ [.used p (.ref p)] } where
  toOrderly := h.toOrderly.use ((h.expanded_iff p).2 hp)
  expanded_iff q := by
    rw [← h.expanded_iff q]
    simp

/-- A pointer that is neither in the table nor on the path was not expanded, and is on the path
while its schema is. -/
theorem enter (h : Sound d path j) (hk : p ∉ j.progress.table.keys) (hp : p ∉ path)
    (hs : d.schema? p = some s) :
    Sound d (p :: path) { j with notes := j.notes ++ [.expanded p] } where
  toOrderly := h.toOrderly.expand (fun hmem => ((h.expanded_iff p).1 hmem).elim hk hp) hs
  expanded_iff q := by
    rw [List.mem_append, h.expanded_iff q, List.mem_singleton, List.mem_cons, Note.expanded.injEq]
    tauto

/-- A pointer that leaves the path is in the table. -/
theorem leave (h : Sound d (p :: path) j) (u : Descriptor) :
    Sound d path { j with progress.table := j.progress.table.insert p u } where
  toOrderly := h.toOrderly
  expanded_iff q := by
    rw [h.expanded_iff q, RefTable.mem_keys_insert, List.mem_cons]
    tauto

end Sound

/-! ## Steps on record -/

namespace Recording

section After

variable {α β : Type} {x : Recording α} {f : α → Recording β} {j j' : Journal} {a : α} {e : Stop}

theorem after_bind_of_ok (h : x.after j = (.ok a, j')) : (x >>= f).after j = (f a).after j' := by
  rw [after, ExceptT.run_bind, StateT.run_bind, ← after, h]
  rfl

theorem after_bind_of_error (h : x.after j = (.error e, j')) :
    (x >>= f).after j = (.error e, j') := by
  rw [after, ExceptT.run_bind, StateT.run_bind, ← after, h]
  rfl

theorem after_pure (a : α) (j : Journal) : (pure a : Recording α).after j = (.ok a, j) := rfl

end After

theorem after_progress_bind (f : Progress → Recording β) (j : Journal) :
    (progress >>= f).after j = (f j.progress).after j := rfl

theorem after_advance_bind (g : Progress → Progress) (f : Unit → Recording β) (j : Journal) :
    (advance g >>= f).after j = (f ()).after { j with progress := g j.progress } := rfl

theorem after_note_bind (n : Note) (f : Unit → Recording β) (j : Journal) :
    (note n >>= f).after j = (f ()).after { j with notes := j.notes ++ [n] } := rfl

end Recording

/-- A step on record ends like a step of resolution from every sound journal, which stays sound, or
at least orderly where it fails. -/
def Mirrors (d : Document) (path : List String) {α : Type} (x' : Recording α) (x : Resolving α) :
    Prop :=
  ∀ j, Sound d path j →
    (∃ a j', x'.after j = (.ok a, j') ∧ x.run j.progress = .ok (a, j'.progress) ∧ Sound d path j') ∨
      ∃ e j', x'.after j = (.error (.refused e), j') ∧ x.run j.progress = .error e ∧
        Orderly d j'.notes

namespace Mirrors

variable {d : Document} {path : List String} {α β : Type} {x' : Recording α} {x : Resolving α}
  {f' : α → Recording β} {f : α → Resolving β}

theorem pure (a : α) : Mirrors d path (Pure.pure a) (Pure.pure a) :=
  fun j hj => Or.inl ⟨a, j, Recording.after_pure a j, run_pure a j.progress, hj⟩

theorem refuse (e : ResolveError) :
    Mirrors d path (Recording.refuse e : Recording α) (Resolve.refuse e) :=
  fun j hj => Or.inr ⟨e, j, rfl, run_refuse e j.progress, hj.toOrderly⟩

/-- Steps one after another; the second may rely on what the first gives. -/
theorem bind (hx : Mirrors d path x' x)
    (hf : ∀ a, (∃ σ σ', x.run σ = .ok (a, σ')) → Mirrors d path (f' a) (f a)) :
    Mirrors d path (x' >>= f') (x >>= f) := by
  intro j hj
  rcases hx j hj with ⟨a, j₁, hafter, hrun, hj₁⟩ | ⟨e, j₁, hafter, hrun, horderly⟩
  · rw [Recording.after_bind_of_ok hafter, run_bind_of_ok hrun]
    exact hf a ⟨_, _, hrun⟩ j₁ hj₁
  · exact Or.inr ⟨e, j₁, Recording.after_bind_of_error hafter, run_bind_of_error hrun, horderly⟩

/-- Nothing is done after a failure. -/
theorem refuse_bind (e : ResolveError) :
    Mirrors d path (Recording.refuse e >>= f') (Resolve.refuse e >>= f) :=
  (refuse e).bind fun _ ⟨σ, _, h⟩ => nomatch (run_refuse e σ).symm.trans h

theorem orRefuse (e : ResolveError) (o : Option α) :
    Mirrors d path (Recording.orRefuse e o) (Resolve.orRefuse e o) := by
  cases o with
  | none => exact refuse e
  | some a => exact pure a

theorem typeName (raw context : String) :
    Mirrors d path (Recording.typeName raw context) (Resolve.typeName raw context) :=
  orRefuse _ _

theorem warn (w : Warning) : Mirrors d path (Recording.warn w) (Resolve.warn w) :=
  fun j hj => Or.inl ⟨(), { j with progress.warnings := j.progress.warnings ++ [w] }, rfl, rfl,
    hj.advance (f := fun σ => { σ with warnings := σ.warnings ++ [w] }) rfl⟩

theorem ofExcept (e : Except ResolveError α) :
    Mirrors d path (Recording.ofExcept e) (liftM e) := by
  cases e with
  | error e => exact refuse e
  | ok a => exact pure a

/-- What follows a look at the state. -/
theorem look {f' : Progress → Recording β} {f : Progress → Resolving β}
    (h : ∀ σ, Mirrors d path (f' σ) (f σ)) :
    Mirrors d path (Recording.progress >>= f') (get >>= f) := by
  intro j hj
  rw [Recording.after_progress_bind, run_get_bind]
  exact h j.progress j hj

theorem mapM {g' : α → Recording β} {g : α → Resolving β} {as : List α}
    (h : ∀ a ∈ as, Mirrors d path (g' a) (g a)) : Mirrors d path (as.mapM g') (as.mapM g) := by
  induction as with
  | nil =>
      rw [List.mapM_nil, List.mapM_nil]
      exact pure []
  | cons a as ih =>
      rw [List.mapM_cons, List.mapM_cons]
      refine (h a List.mem_cons_self).bind fun b _ => ?_
      exact (ih fun a' ha' => h a' (List.mem_cons_of_mem a ha')).bind fun bs _ => pure _

end Mirrors

/-! ## Schemas -/

/-- Calls may be nested deep enough for what is behind all pointers that are not on a path, and for
a schema of a size before them. -/
def Deep (d : Document) (path : List String) (size depth : Nat) : Prop :=
  unentered d path * (3 * sizeOf d.components.schemas) + size ≤ depth

section Schemas

variable {d : Document} {path : List String} {size depth k : Nat} {p : String} {s : Schema}

theorem Deep.mono (h : Deep d path size depth) (hk : k ≤ size) : Deep d path k depth := by
  unfold Deep at h ⊢
  omega

/-- A call is nested in one of a greater size. -/
theorem Deep.call (h : Deep d path size depth) (hk : k < size) :
    ∃ n, depth = n + 1 ∧ Deep d path k n := by
  unfold Deep at h ⊢
  exact ⟨depth - 1, by omega, by omega⟩

theorem sizeOf_schema_lt (h : d.schema? p = some s) : sizeOf s < sizeOf d.components.schemas := by
  obtain ⟨name, -, hs⟩ := Option.bind_eq_some_iff.1 h
  have hmem : (name, s) ∈ d.components.schemas := by
    obtain ⟨before, after, he, -⟩ := List.lookup_eq_some_iff.1 hs
    rw [he]
    exact List.mem_append_right _ List.mem_cons_self
  have := List.sizeOf_lt_of_mem hmem
  simp only [Prod.mk.sizeOf_spec] at this
  omega

/-- Behind a pointer that is not on the path there is one pointer less to come. -/
theorem Deep.enter (h : Deep d path 1 depth) (hs : d.schema? p = some s)
    (hp : path.contains p = false) :
    ∃ n, depth = n + 1 ∧ Deep d (p :: path) (3 * sizeOf s + 3) n := by
  have hlt := unentered_cons_lt hs hp
  have hsize := sizeOf_schema_lt hs
  have hmul := Nat.mul_le_mul_right (3 * sizeOf d.components.schemas) hlt
  rw [Nat.succ_mul] at hmul
  unfold Deep at h ⊢
  exact ⟨depth - 1, by omega, by omega⟩

/-- A use of a pointer whose schema was expanded. -/
theorem mirrors_answer {j : Journal} (h : Sound d path j)
    (hp : p ∈ j.progress.table.keys ∨ p ∈ path) :
    ∃ a j', (do return (← Recording.answer p (.ref p)) : Recording Descriptor).after j =
      (.ok a, j') ∧
      (Pure.pure (.ref p) : Resolving Descriptor).run j.progress = .ok (a, j'.progress) ∧
        Sound d path j' :=
  ⟨.ref p, _, rfl, rfl, h.use hp⟩

/-- A pointer is resolved where the schema behind it is, if it has to be expanded. -/
theorem mirrors_reference (hdeep : Deep d path 1 depth)
    (ih : path.contains p = false → ∀ s, d.schema? p = some s → ∀ name depth,
      Deep d (p :: path) (3 * sizeOf s + 3) depth →
        Mirrors d (p :: path) (Recording.named d depth (p :: path) s name)
          (named d (p :: path) s name)) :
    Mirrors d path (Recording.reference d depth path p) (reference d path p) := by
  obtain ⟨n, rfl, -⟩ := hdeep.call (k := 0) (by omega)
  intro j hj
  rw [Recording.reference, reference_eq, Recording.after_progress_bind, run_get_bind]
  by_cases hk : j.progress.table.contains p = true
  · rw [if_pos hk, if_pos hk]
    exact Or.inl (mirrors_answer hj (Or.inl (RefTable.contains_iff.1 hk)))
  rw [if_neg hk, if_neg hk]
  by_cases hpath : path.contains p = true
  · rw [if_pos hpath, if_pos hpath, Recording.after_advance_bind, run_modify_bind]
    have hmark := hj.advance (f := fun σ => { σ with table := σ.table.mark p })
      (RefTable.keys_mark _ p)
    exact Or.inl (mirrors_answer hmark (Or.inr (List.contains_iff_mem.1 hpath)))
  rw [if_neg hpath, if_neg hpath]
  have hfresh : path.contains p = false := by simpa using hpath
  cases hs : d.schema? p with
  | none => exact Or.inr ⟨_, j, rfl, run_refuse _ _, hj.toOrderly⟩
  | some s =>
      obtain ⟨m, hm, hnamed⟩ := hdeep.enter hs hfresh
      obtain rfl : n = m := Nat.succ.inj hm
      dsimp only
      unfold Recording.typeName typeName
      cases hname : Naming.typeName? (Naming.simpleName p) with
      | none => exact Or.inr ⟨_, j, rfl, rfl, hj.toOrderly⟩
      | some name =>
          have henter := (hj.advance (f := fun σ =>
            { σ with entered := σ.entered ++ [p] }) rfl).enter
            (fun hmem => hk (RefTable.contains_iff.2 hmem))
            (fun hmem => hpath (List.contains_iff_mem.2 hmem)) hs
          simp only [Recording.orRefuse, orRefuse, pure_bind]
          rw [Recording.after_advance_bind, Recording.after_note_bind, run_modify_bind]
          rcases ih hfresh s hs name n hnamed _ henter with
            ⟨u, j', hafter, hrun, hj'⟩ | ⟨e, j', hafter, hrun, horderly⟩
          · rw [Recording.after_bind_of_ok hafter, run_bind_of_ok hrun,
              Recording.after_advance_bind,
              run_modify_bind]
            exact Or.inl (mirrors_answer (hj'.leave u)
              (Or.inl (RefTable.mem_keys_insert.2 (Or.inr rfl))))
          · exact Or.inr ⟨e, j', Recording.after_bind_of_error hafter, run_bind_of_error hrun,
              horderly⟩

theorem mirrors_schemas (d : Document) :
    (∀ path s context depth, Deep d path (3 * sizeOf s + 2) depth →
      Mirrors d path (Recording.typeOf d depth path s context) (typeOf d path s context)) ∧
    (∀ path required context props depth, Deep d path (3 * sizeOf props + 1) depth →
      Mirrors d path (Recording.propertiesOf d depth path required context props)
        (propertiesOf d path required context props)) ∧
    (∀ path name? s context depth, Deep d path (3 * sizeOf s + 1) depth →
      Mirrors d path (Recording.arrayOf d depth path name? s context)
        (arrayOf d path name? s context)) ∧
    (∀ path pointer depth, Deep d path 1 depth →
      Mirrors d path (Recording.reference d depth path pointer) (reference d path pointer)) ∧
    (∀ path s name depth, Deep d path (3 * sizeOf s + 3) depth →
      Mirrors d path (Recording.named d depth path s name) (named d path s name)) := by
  apply typeOf.mutual_induct d
  -- `typeOf`: a pointer, a composition, a scalar, an array, an object, an unknown type.
  · intro path s context pointer hr ih depth hdeep
    obtain ⟨n, rfl, hn⟩ := hdeep.call (k := 1) (by omega)
    rw [Recording.typeOf, typeOf, hr]
    exact ih n hn
  · intro path s context hr hc depth hdeep
    obtain ⟨n, rfl, -⟩ := hdeep.call (k := 0) (by omega)
    rw [Recording.typeOf, typeOf, hr]
    simp only [hc, if_true]
    exact .refuse _
  · intro path s context hr hc u hu depth hdeep
    obtain ⟨n, rfl, -⟩ := hdeep.call (k := 0) (by omega)
    rw [Recording.typeOf, typeOf, hr]
    simp only [hc, hu, Bool.false_eq_true, if_false]
    exact .pure u
  · intro path s context hr hc hu ha ih depth hdeep
    obtain ⟨n, rfl, hn⟩ := hdeep.call (k := 3 * sizeOf s + 1) (by omega)
    rw [Recording.typeOf, typeOf, hr]
    simp only [hc, hu, ha, Bool.false_eq_true, if_false, if_true]
    exact ih n hn
  · intro path s context hr hc hu ha ho ih depth hdeep
    have hsize := sizeOf_properties_lt s
    obtain ⟨n, rfl, hn⟩ := hdeep.call (k := 3 * sizeOf s.properties + 1) (by omega)
    rw [Recording.typeOf, typeOf, hr]
    simp only [hc, hu, ha, ho, Bool.false_eq_true, if_false, if_true]
    exact (ih n hn).bind fun ps _ => .pure _
  · intro path s context hr hc hu ha ho depth hdeep
    obtain ⟨n, rfl, -⟩ := hdeep.call (k := 0) (by omega)
    rw [Recording.typeOf, typeOf, hr]
    simp only [hc, hu, ha, ho, Bool.false_eq_true, if_false]
    exact .refuse _
  -- `propertiesOf`: none, or one and the others.
  · intro path required context depth hdeep
    obtain ⟨n, rfl, -⟩ := hdeep.call (k := 0) (by omega)
    rw [Recording.propertiesOf, propertiesOf]
    exact .pure []
  · intro path required context name s rest ihs ihrest depth hdeep
    obtain ⟨n, rfl, hn⟩ := hdeep.call (k := 3 * sizeOf ((name, s) :: rest)) (by omega)
    simp only [List.cons.sizeOf_spec, Prod.mk.sizeOf_spec] at hn
    rw [Recording.propertiesOf, propertiesOf]
    refine (ihs n (hn.mono (by omega))).bind fun type _ => ?_
    exact (ihrest n (hn.mono (by omega))).bind fun more _ => .pure _
  -- `arrayOf`: without items, or with.
  · intro path name? s context hi depth hdeep
    obtain ⟨n, rfl, -⟩ := hdeep.call (k := 0) (by omega)
    rw [Recording.arrayOf, arrayOf_eq, hi]
    exact .refuse _
  · intro path name? s context it hi ih depth hdeep
    have hsize := sizeOf_items_lt hi
    obtain ⟨n, rfl, hn⟩ := hdeep.call (k := 3 * sizeOf it + 2) (by omega)
    rw [Recording.arrayOf, arrayOf_eq, hi]
    exact (ih n hn).bind fun t _ => .pure _
  -- `reference`: in the table, on the path, or to be expanded.
  · intro path pointer ih depth hdeep
    exact mirrors_reference hdeep fun hp s hs name => ih hp s hs name
  -- `named`: a pointer or composition, an array, an object, anything else.
  · intro path s name hr ih depth hdeep
    obtain ⟨n, rfl, hn⟩ := hdeep.call (k := 3 * sizeOf s + 2) (by omega)
    rw [Recording.named, named, if_pos hr, if_pos hr]
    exact ih n hn
  · intro path s name hr ha ih depth hdeep
    obtain ⟨n, rfl, hn⟩ := hdeep.call (k := 3 * sizeOf s + 1) (by omega)
    rw [Recording.named, named, if_neg hr, if_neg hr, if_pos ha, if_pos ha]
    exact ih n hn
  · intro path s name hr ha ho ih depth hdeep
    have hsize := sizeOf_properties_lt s
    obtain ⟨n, rfl, hn⟩ := hdeep.call (k := 3 * sizeOf s.properties + 1) (by omega)
    rw [Recording.named, named, if_neg hr, if_neg hr, if_neg ha, if_neg ha, if_pos ho, if_pos ho]
    exact (ih n hn).bind fun ps _ => .pure _
  · intro path s name hr ha ho ih depth hdeep
    obtain ⟨n, rfl, hn⟩ := hdeep.call (k := 3 * sizeOf s + 2) (by omega)
    rw [Recording.named, named, if_neg hr, if_neg hr, if_neg ha, if_neg ha, if_neg ho, if_neg ho]
    exact ih n hn

end Schemas

/-! ## Operations -/

/-- Calls may be nested deep enough for a schema of an operation. -/
def Reaches (d : Document) (depth : Nat) (s : Schema) : Prop :=
  Deep d [] (3 * sizeOf s + 2) depth

section Operations

variable {d : Document} {depth : Nat} {operationId className : String}

theorem mirrors_typeOf {s : Schema} (hs : Reaches d depth s) (context : String) :
    Mirrors d [] (Recording.typeOf d depth [] s context) (typeOf d [] s context) :=
  (mirrors_schemas d).1 [] s context depth hs

theorem mirrors_pointer {s : Schema} (hs : Reaches d depth s) (pointer : String) :
    Mirrors d [] (Recording.reference d depth [] pointer) (reference d [] pointer) :=
  (mirrors_schemas d).2.2.2.1 [] pointer depth (hs.mono (by omega))

theorem mirrors_primitiveOf? {s? : Option Schema} (hs : ∀ s ∈ s?, Reaches d depth s)
    (context : String) :
    Mirrors d [] (Recording.primitiveOf? d depth s? context) (primitiveOf? d s? context) := by
  cases s? with
  | none => exact .pure _
  | some s =>
      refine (mirrors_typeOf (hs s rfl) context).bind fun t _ => ?_
      exact .look fun σ => .pure _

theorem mirrors_parameter {p : Document.Parameter} (hs : ∀ s ∈ p.schema, Reaches d depth s) :
    Mirrors d [] (Recording.parameter d depth operationId p) (parameter d operationId p) := by
  unfold Recording.parameter parameter
  refine (Mirrors.orRefuse _ _).bind fun location _ => ?_
  refine (mirrors_primitiveOf? hs _).bind fun primitive? _ => ?_
  exact (Mirrors.orRefuse _ _).bind fun primitive _ => .pure _

theorem mirrors_parameters {item : Document.PathItem} {o : Document.Operation}
    (hs : ∀ s ∈ parameterSchemas d item o, Reaches d depth s) :
    Mirrors d [] (Recording.parameters d depth operationId item o)
      (parameters d operationId item o) := by
  unfold Recording.parameters parameters
  have hdeclared : Mirrors d [] ((item.parameters ++ o.parameters).mapM fun e =>
      Recording.ofExcept (followParam d e)) ((item.parameters ++ o.parameters).mapM fun e =>
        (liftM (followParam d e) : Resolving Document.Parameter)) :=
    .mapM fun e _ => .ofExcept _
  refine hdeclared.bind fun declared ⟨σ, σ', hrun⟩ => .mapM fun e he => mirrors_parameter ?_
  rw [mapM_lift] at hrun
  obtain ⟨hps, -⟩ := run_lift_eq_ok.1 hrun
  intro s hse
  refine hs s ?_
  rw [parameterSchemas, hps]
  exact List.mem_filterMap.2 ⟨e, he, hse⟩

theorem mirrors_requestContents {content : Document.Content} (done : List (Media × Descriptor))
    (hs : ∀ e ∈ content, ∀ m, Media.ofMime? (essence e.1) = some m →
      ∀ s ∈ e.2.schema, s.ref.isSome = true → Reaches d depth s) :
    Mirrors d [] (Recording.requestContents d depth operationId done content)
      (requestContents d operationId done content) := by
  induction content generalizing done with
  | nil => exact .pure done
  | cons e rest ih =>
      obtain ⟨mime, c⟩ := e
      have ih' := fun done => ih done fun e he => hs e (List.mem_cons_of_mem _ he)
      rw [Recording.requestContents, requestContents]
      cases hm : Media.ofMime? (essence mime) with
      | none => exact (Mirrors.warn _).bind fun _ _ => ih' done
      | some m =>
          cases hr : c.schema.bind (·.ref) with
          | none => exact (Mirrors.warn _).bind fun _ _ => ih' done
          | some pointer =>
              obtain ⟨s, hc, href⟩ := Option.bind_eq_some_iff.1 hr
              have hreach := hs (mime, c) List.mem_cons_self m hm s hc (by rw [href]; rfl)
              exact (mirrors_pointer hreach pointer).bind fun t _ => ih' _

theorem mirrors_requestBody {o : Document.Operation}
    (hs : ∀ s ∈ requestSchemas o, Reaches d depth s) :
    Mirrors d [] (Recording.requestBody d depth operationId o) (requestBody d operationId o) := by
  unfold Recording.requestBody requestBody
  cases hb : o.requestBody with
  | none => exact .pure none
  | some b =>
      have hcontent : ∀ e ∈ b.content, ∀ m, Media.ofMime? (essence e.1) = some m →
          ∀ s ∈ e.2.schema, s.ref.isSome = true → Reaches d depth s := by
        intro e he m hm s hse href
        refine hs s ?_
        unfold requestSchemas
        rw [hb]
        refine List.mem_flatMap.2 ⟨b, by simp, List.mem_filterMap.2 ⟨e, he, ?_⟩⟩
        rw [hm, Option.mem_def.1 hse]
        simp [href]
      refine (mirrors_requestContents [] hcontent).bind fun content _ => ?_
      split
      · exact (Mirrors.warn _).bind fun _ _ => .pure none
      · exact (Mirrors.typeName _ _).bind fun name _ => .pure _

theorem mirrors_headerProperties {headers : List (String × Document.Header)}
    (hs : ∀ e ∈ headers, ∀ s ∈ e.2.schema, Reaches d depth s) :
    Mirrors d [] (Recording.headerProperties d depth operationId className headers)
      (headerProperties d operationId className headers) := by
  induction headers with
  | nil => exact .pure []
  | cons e rest ih =>
      obtain ⟨header, h⟩ := e
      rw [Recording.headerProperties, headerProperties]
      refine (mirrors_primitiveOf? (hs (header, h) List.mem_cons_self) _).bind fun primitive? _ =>
        ?_
      refine (Mirrors.orRefuse _ _).bind fun primitive _ => ?_
      refine (ih fun e he => hs e (List.mem_cons_of_mem _ he)).bind fun more _ => ?_
      exact .pure _

theorem mirrors_responseHeaders {r : Document.Response} (variant : String)
    (hs : ∀ s ∈ responseSchemas r, Reaches d depth s) :
    Mirrors d [] (Recording.responseHeaders d depth operationId className variant r)
      (responseHeaders d operationId className variant r) := by
  have hheaders : ∀ e ∈ r.headers, ∀ s ∈ e.2.schema, Reaches d depth s :=
    fun e he s hse => hs s (List.mem_append_right _ (List.mem_filterMap.2 ⟨e, he, hse⟩))
  unfold Recording.responseHeaders responseHeaders
  split
  · exact .pure none
  · exact (mirrors_headerProperties hheaders).bind fun ps _ => .pure _

theorem mirrors_jsonBody {s : Schema} (status : Status) (hs : Reaches d depth s) :
    Mirrors d [] (Recording.jsonBody d depth operationId className status s)
      (jsonBody d operationId className status s) := by
  unfold Recording.jsonBody jsonBody
  cases s.ref with
  | some pointer =>
      refine (mirrors_pointer hs pointer).bind fun body _ => .look fun σ => ?_
      split
      · exact (Mirrors.typeName _ _).bind fun name _ => .pure _
      · exact (Mirrors.orRefuse _ _).bind fun name _ => .pure _
  | none =>
      refine (Mirrors.orRefuse _ _).bind fun name _ => ?_
      exact (mirrors_typeOf hs _).bind fun body _ => .pure _

theorem mirrors_responseVariant {r : Document.Response} (status : Status)
    (hs : ∀ s ∈ responseSchemas r, Reaches d depth s) :
    Mirrors d [] (Recording.responseVariant d depth operationId className status r)
      (responseVariant d operationId className status r) := by
  unfold Recording.responseVariant responseVariant
  cases hj : (jsonContent? r.content).bind (·.schema) with
  | some s =>
      have hmem : s ∈ responseSchemas r := by
        unfold responseSchemas
        rw [hj]
        exact List.mem_append_left _ List.mem_cons_self
      refine (mirrors_jsonBody status (hs s hmem)).bind fun nb _ => ?_
      exact (mirrors_responseHeaders nb.1 hs).bind fun headers? _ => .pure _
  | none =>
      have hlast : Mirrors d []
          (do
            let name ← Recording.statusName operationId status
            let headers ← Recording.responseHeaders d depth operationId className name r
            return { name, headers, payload := .none } : Recording Variant)
          (do
            let name ← statusName operationId status
            let headers ← responseHeaders d operationId className name r
            return { name, headers, payload := .none }) := by
        refine (Mirrors.orRefuse _ _).bind fun name _ => ?_
        exact (mirrors_responseHeaders name hs).bind fun headers? _ => .pure _
      dsimp only
      split
      · exact (mirrors_responseHeaders "File" hs).bind fun headers? _ => .pure _
      split
      · exact (Mirrors.warn _).bind fun _ _ => hlast
      · exact hlast

theorem mirrors_responseVariants {responses : List (String × Document.Response)}
    (done : List (Status × Variant))
    (hs : ∀ e ∈ responses, ∀ s ∈ responseSchemas e.2, Reaches d depth s) :
    Mirrors d [] (Recording.responseVariants d depth operationId className done responses)
      (responseVariants d operationId className done responses) := by
  induction responses generalizing done with
  | nil => exact .pure done
  | cons e rest ih =>
      obtain ⟨text, r⟩ := e
      rw [Recording.responseVariants, responseVariants]
      refine (Mirrors.orRefuse _ _).bind fun status _ => ?_
      refine (mirrors_responseVariant status (hs (text, r) List.mem_cons_self)).bind fun v _ => ?_
      refine .look fun σ => ?_
      dsimp only
      split
      · exact .refuse_bind _
      split
      · exact .refuse_bind _
      exact ih _ fun e he => hs e (List.mem_cons_of_mem _ he)

theorem mirrors_responseBody {o : Document.Operation}
    (hs : ∀ e ∈ o.responses, ∀ s ∈ responseSchemas e.2, Reaches d depth s) :
    Mirrors d [] (Recording.responseBody d depth operationId o) (responseBody d operationId o) := by
  unfold Recording.responseBody responseBody
  refine (Mirrors.typeName _ _).bind fun name _ => ?_
  exact (mirrors_responseVariants [] hs).bind fun variants _ => .pure _

theorem mirrors_operation {e : Endpoint} (hs : ∀ s ∈ endpointSchemas d e, Reaches d depth s) :
    Mirrors d [] (Recording.operation d depth e.1 e.2.1 e.2.2.1 e.2.2.2) (endpoint d e) := by
  obtain ⟨path, method, item, o⟩ := e
  have hparameters : ∀ s ∈ parameterSchemas d item o, Reaches d depth s :=
    fun s hse => hs s (List.mem_append_left _ hse)
  have hrequest : ∀ s ∈ requestSchemas o, Reaches d depth s :=
    fun s hse => hs s (List.mem_append_right _ (List.mem_append_left _ hse))
  have hresponses : ∀ r ∈ o.responses, ∀ s ∈ responseSchemas r.2, Reaches d depth s :=
    fun r hr s hse => hs s (List.mem_append_right _ (List.mem_append_right _
      (List.mem_flatMap.2 ⟨r, hr, hse⟩)))
  unfold endpoint Recording.operation operation
  refine (Mirrors.orRefuse _ _).bind fun operationId _ => ?_
  refine (Mirrors.typeName _ _).bind fun _ _ => ?_
  refine (Mirrors.ofExcept _).bind fun security? _ => ?_
  refine (mirrors_parameters hparameters).bind fun declared _ => ?_
  dsimp only
  cases undeclared? path ((security?.map securityParam).toList ++
      declared.filter fun p => !isSecurityHeader security? p) with
  | some name => exact .refuse_bind _
  | none =>
      refine (mirrors_requestBody hrequest).bind fun body? _ => ?_
      exact (mirrors_responseBody hresponses).bind fun body _ => .pure _

end Operations

/-! ## Documents -/

section Documents

variable {d : Document} {depth : Nat} {namePrefix : String}

theorem mirrors_metadata
    (hs : ∀ e ∈ operationsOf d, ∀ s ∈ endpointSchemas d e, Reaches d depth s) :
    Mirrors d [] (Recording.metadata d depth namePrefix) (metadata d namePrefix) := by
  unfold Recording.metadata metadata
  refine (Mirrors.mapM fun e he => mirrors_operation (hs e he)).bind fun operations _ => ?_
  exact (Mirrors.typeName _ _).bind fun name _ => .look fun σ => .pure _

/-- Some depth is enough for all schemas of all operations. -/
theorem exists_reaches (d : Document) : ∃ least, ∀ depth, least ≤ depth →
    ∀ e ∈ operationsOf d, ∀ s ∈ endpointSchemas d e, Reaches d depth s := by
  refine ⟨unentered d [] * (3 * sizeOf d.components.schemas) +
    (3 * sizeOf ((operationsOf d).flatMap (endpointSchemas d)) + 2),
      fun depth hdepth e he s hs => ?_⟩
  have hsize := List.sizeOf_lt_of_mem (List.mem_flatMap.2 ⟨e, he, hs⟩)
  unfold Reaches Deep
  omega

/-- How a resolution on record ends, and what it has noted. -/
structure ResolvesOnce (d : Document) (namePrefix : String) (r : Except Stop Metadata)
    (j : Journal) :
    Prop where
  /-- It ends as resolution does, and not for want of depth. -/
  ends : (∃ m, r = .ok m ∧ d.resolve namePrefix = .ok (m, j.progress.warnings)) ∨
    ∃ e, r = .error (.refused e) ∧ d.resolve namePrefix = .error e
  /-- No schema is expanded twice. -/
  once : (j.notes.filterMap Note.expanded?).Nodup
  /-- What is expanded is a schema of the document. -/
  found : ∀ p, .expanded p ∈ j.notes → ∃ s, d.schema? p = some s
  few : (j.notes.filterMap Note.expanded?).length ≤ d.components.schemas.length
  /-- Every use of a pointer gives the pointer, and comes after the only expansion of its schema. -/
  placeholder : ∀ before p t after, j.notes = before ++ .used p t :: after →
    t = .ref p ∧ .expanded p ∈ before ∧ .expanded p ∉ after
  /-- What was expanded is in the table in the end. -/
  table : ∀ m, r = .ok m → ∀ p, .expanded p ∈ j.notes ↔ p ∈ m.refs.keys

theorem Orderly.length_le {notes : List Note} (h : Orderly d notes) :
    (notes.filterMap Note.expanded?).length ≤ d.components.schemas.length := by
  have hsub : notes.filterMap Note.expanded? ⊆
      d.components.schemas.map fun e => Document.schemaRoot ++ e.1 := by
    intro p hp
    obtain ⟨s, hs⟩ := h.found p (mem_expansions.1 hp)
    exact mem_keys_of_schema? hs
  have hlength := (h.once.subperm hsub).length_le
  rwa [List.length_map] at hlength

theorem Orderly.not_mem_after {before after : List Note} {p : String} {n : Note}
    (h : Orderly d (before ++ n :: after)) (hp : .expanded p ∈ before) : .expanded p ∉ after := by
  intro hafter
  have honce := h.once
  rw [List.filterMap_append] at honce
  refine (List.nodup_append'.1 honce).2.2 (mem_expansions.2 hp) (mem_expansions.2 ?_)
  exact List.mem_cons_of_mem n hafter

theorem Orderly.resolvesOnce {r : Except Stop Metadata} {j : Journal} (h : Orderly d j.notes)
    (hends : (∃ m, r = .ok m ∧ d.resolve namePrefix = .ok (m, j.progress.warnings)) ∨
      ∃ e, r = .error (.refused e) ∧ d.resolve namePrefix = .error e)
    (htable : ∀ m, r = .ok m → ∀ p, .expanded p ∈ j.notes ↔ p ∈ m.refs.keys) :
    ResolvesOnce d namePrefix r j := by
  refine ⟨hends, h.once, h.found, h.length_le, fun before p t after hsplit => ?_, htable⟩
  obtain ⟨ht, hp⟩ := h.placeholder before p t after hsplit
  exact ⟨ht, hp, (hsplit ▸ h).not_mem_after hp⟩

/-- The table that a resolution gives is the one that it has built. -/
theorem refs_of_run_metadata {m : Metadata} {σ σ' : Progress}
    (h : (metadata d namePrefix).run σ = .ok (m, σ')) : m.refs = σ'.table := by
  obtain ⟨operations, σ₁, -, h⟩ := run_bind_eq_ok.1 h
  obtain ⟨name, σ₂, -, h⟩ := run_bind_eq_ok.1 h
  rw [run_get_bind] at h
  obtain ⟨rfl, rfl⟩ := run_pure_eq_ok.1 h
  rfl

/-- Whatever cycles a document has, it is resolved or refused by calls that are nested to some depth
at most.  No schema is expanded twice on the way, and every use of a pointer after the expansion of
its schema gives the same pointer. -/
theorem resolve_once (d : Document) (namePrefix : String) :
    ∃ least, ∀ depth, least ≤ depth →
      ResolvesOnce d namePrefix ((Recording.metadata d depth namePrefix).after {}).1
        ((Recording.metadata d depth namePrefix).after {}).2 := by
  obtain ⟨least, hleast⟩ := exists_reaches d
  refine ⟨least, fun depth hdepth => ?_⟩
  have hmirrors : Mirrors d [] (Recording.metadata d depth namePrefix) (metadata d namePrefix) :=
    mirrors_metadata (hleast depth hdepth)
  rcases hmirrors {} (.empty d) with ⟨m, j, hafter, hrun, hj⟩ | ⟨e, j, hafter, hrun, hj⟩
  · rw [hafter]
    have hresolve : d.resolve namePrefix = .ok (m, j.progress.warnings) := by
      rw [Document.resolve, hrun]
      rfl
    refine hj.toOrderly.resolvesOnce (Or.inl ⟨m, rfl, hresolve⟩) fun m' hm p => ?_
    obtain rfl := Except.ok.inj hm
    rw [refs_of_run_metadata hrun, hj.expanded_iff p]
    simp
  · rw [hafter]
    have hresolve : d.resolve namePrefix = .error e := by
      rw [Document.resolve, hrun]
      rfl
    exact hj.resolvesOnce (Or.inr ⟨e, rfl, hresolve⟩) fun m hm => nomatch hm

theorem resolve_once_loop :
    ∃ depth, ((Recording.metadata loopDocument depth "Api").after {}).1 = .ok loopMetadata ∧
      ResolvesOnce loopDocument "Api" ((Recording.metadata loopDocument depth "Api").after {}).1
        ((Recording.metadata loopDocument depth "Api").after {}).2 := by
  obtain ⟨depth, hdepth⟩ := resolve_once loopDocument "Api"
  have honce := hdepth depth le_rfl
  refine ⟨depth, ?_, honce⟩
  rcases honce.ends with ⟨m, hm, hresolve⟩ | ⟨e, -, hresolve⟩
  · rw [resolve_loopDocument] at hresolve
    rw [hm, (Prod.mk.inj (Except.ok.inj hresolve)).1]
  · rw [resolve_loopDocument] at hresolve
    cases hresolve

/-- A record that refers to itself by another name is expanded once, and so is the other name. -/
example : ((Recording.metadata loopDocument 12 "Api").after {}).2.notes = [
    .expanded nodePointer, .expanded linkPointer, .used nodePointer (.ref nodePointer),
    .used linkPointer (.ref linkPointer), .used nodePointer (.ref nodePointer)] := by
  decide +kernel

end Documents

end Resolve
end ApiContract
