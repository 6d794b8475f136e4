import ApiContract.Proofs.Expansion

/-!
# What a step of resolution does to the table

Resolving a schema asks for the pointers of its descriptor.  `Visit` says everything that the table
goes through on the way, relative to the path of pointers that are still being resolved; it is
proved once for the five functions that call each other, and whatever holds of a resolved document
follows from it.

**Results:**

* `Visit.trans`: steps one after another are a step;
* `visit_typeOf`: a schema that is resolved gets the descriptor it has by itself (`shapeOf?`), by a
  step that asks for the pointers of this descriptor;
* `exists_run_typeOf`: a schema is resolved if it has a descriptor and what it leads to can be
  expanded.
-/

namespace ApiContract
namespace Resolve

open Document (Schema)

/-! ## Runs -/

section Runs

variable {α β : Type} {x : Resolving α} {f : α → Resolving β} {e : ResolveError} {σ σ' : Progress}
  {a b : α}

theorem run_bind_eq_ok {r : β × Progress} :
    (x >>= f).run σ = .ok r ↔ ∃ a σ', x.run σ = .ok (a, σ') ∧ (f a).run σ' = .ok r := by
  rw [StateT.run_bind]
  cases hx : x.run σ with
  | error e => simp [bind, Except.bind]
  | ok p =>
      obtain ⟨a, σ'⟩ := p
      simp [bind, Except.bind]

theorem run_bind_of_ok (h : x.run σ = .ok (a, σ')) : (x >>= f).run σ = (f a).run σ' := by
  rw [StateT.run_bind, h]
  rfl

theorem run_bind_of_error (h : x.run σ = .error e) : (x >>= f).run σ = .error e := by
  rw [StateT.run_bind, h]
  rfl

theorem run_pure_eq_ok : (pure a : Resolving α).run σ = .ok (b, σ') ↔ a = b ∧ σ = σ' := by
  constructor
  · intro h
    cases h
    exact ⟨rfl, rfl⟩
  · rintro ⟨rfl, rfl⟩
    rfl

theorem run_pure (a : α) (σ : Progress) : (pure a : Resolving α).run σ = .ok (a, σ) := rfl

theorem run_modify_bind (g : Progress → Progress) (f : PUnit → Resolving β) (σ : Progress) :
    ((modify g : Resolving PUnit) >>= f).run σ = (f ⟨⟩).run (g σ) := rfl

theorem run_get_bind (f : Progress → Resolving β) (σ : Progress) :
    ((get : Resolving Progress) >>= f).run σ = (f σ).run σ := rfl

theorem run_refuse (e : ResolveError) (σ : Progress) :
    (refuse e : Resolving α).run σ = .error e := rfl

theorem run_orRefuse_eq_ok {o : Option α} :
    (orRefuse e o).run σ = .ok (a, σ') ↔ o = some a ∧ σ = σ' := by
  cases o with
  | none => simp [orRefuse, run_refuse]
  | some b => simpa [orRefuse] using run_pure_eq_ok

theorem run_typeName_eq_ok {raw context name : String} :
    (typeName raw context).run σ = .ok (name, σ') ↔ Naming.typeName? raw = some name ∧ σ = σ' := by
  unfold typeName
  exact run_orRefuse_eq_ok

theorem run_lift_eq_ok {e : Except ResolveError α} :
    (liftM e : Resolving α).run σ = .ok (a, σ') ↔ e = .ok a ∧ σ = σ' := by
  cases e with
  | error e =>
      constructor
      · intro h
        cases h
      · rintro ⟨h, -⟩
        cases h
  | ok b => exact run_pure_eq_ok.trans (and_congr_left fun _ => ⟨congrArg _, Except.ok.inj⟩)

/-- The same step for every element of a list: what every step keeps is kept, and every value is
related to its element. -/
theorem run_mapM {I : Progress → Prop} {R : α → β → Prop} {g : α → Resolving β} {as : List α}
    {bs : List β} (hg : ∀ a b σ σ', I σ → (g a).run σ = .ok (b, σ') → I σ' ∧ R a b)
    (hσ : I σ) (h : (as.mapM g).run σ = .ok (bs, σ')) : I σ' ∧ List.Forall₂ R as bs := by
  induction as generalizing σ bs with
  | nil =>
      rw [List.mapM_nil] at h
      obtain ⟨rfl, rfl⟩ := run_pure_eq_ok.1 h
      exact ⟨hσ, .nil⟩
  | cons a as ih =>
      rw [List.mapM_cons] at h
      obtain ⟨b, σ₁, hb, h⟩ := run_bind_eq_ok.1 h
      obtain ⟨rest, σ₂, hrest, h⟩ := run_bind_eq_ok.1 h
      obtain ⟨rfl, rfl⟩ := run_pure_eq_ok.1 h
      obtain ⟨hσ₁, hr⟩ := hg a b σ σ₁ hσ hb
      obtain ⟨hσ₂, hrs⟩ := ih hσ₁ hrest
      exact ⟨hσ₂, .cons hr hrs⟩

end Runs

/-! ## Steps -/

/-- What an entry made while a path is being resolved may contain: its pointers were in the table
before, or are marked and, if they are not in the table, on the path. -/
structure Entered (d : Document) (path : List String) (t : RefTable) (p : String)
    (u : Descriptor) : Prop where
  /-- The entry is the expansion of its pointer. -/
  expansion : expansion? d p = some u
  /-- A pointer inside it came before or is marked. -/
  ordered : ∀ q ∈ u.pointers, t.Before q p ∨ t.isRecursive q = true
  /-- A pointer inside it is in the table or still being resolved. -/
  closed : ∀ q ∈ u.pointers, q ∈ t.keys ∨ q ∈ path

/-- A step from one table to another, within a path of pointers that are being resolved, that asks
for the given pointers. -/
structure Visit (d : Document) (path asked : List String) (t t' : RefTable) : Prop where
  /-- Nothing is taken away. -/
  grows : t.Grows t'
  /-- What is asked for is in the table, or marked and still being resolved. -/
  found : ∀ q ∈ asked, q ∈ t'.keys ∨ q ∈ path ∧ t'.isRecursive q = true
  /-- What has been added was reached from what is asked for, and is not being resolved. -/
  reached : ∀ p ∈ t'.keys, p ∈ t.keys ∨ p ∉ path ∧ ∃ q ∈ asked, Leads d q p
  /-- What has been marked lies on a cycle, or is still being resolved and closes one with the path
  from it to what is asked for. -/
  marked : ∀ q, t'.isRecursive q = true → t.isRecursive q = true ∨
    Relation.TransGen t'.Refers q q ∨ q ∈ path ∧ ∃ r ∈ asked, t'.Leads r q
  /-- The entries that have been added. -/
  entered : ∀ p u, t'.get? p = some u → t.get? p = some u ∨ Entered d path t' p u

namespace Visit

variable {d : Document} {path asked asked' : List String} {t t' t'' : RefTable} {p : String}
  {u : Descriptor}

/-- A step that does nothing. -/
theorem refl (d : Document) (path : List String) (t : RefTable) : Visit d path [] t t where
  grows := .refl t
  found := by simp
  reached := fun _ hp => Or.inl hp
  marked := fun _ hq => Or.inl hq
  entered := fun _ _ hu => Or.inl hu

end Visit

/-- An entry stays what it is when the table grows. -/
theorem Entered.grows {d : Document} {path : List String} {t t' : RefTable} {p : String}
    {u : Descriptor} (h : Entered d path t p u) (hp : p ∈ t.keys) (hg : t.Grows t') :
    Entered d path t' p u where
  expansion := h.expansion
  ordered := by
    intro q hq
    rcases h.ordered q hq with hb | hm
    · exact Or.inl (hg.before hb hp)
    · exact Or.inr (hg.marks q hm)
  closed := by
    intro q hq
    rcases h.closed q hq with hk | hk
    · exact Or.inl (hg.mem_keys hk)
    · exact Or.inr hk

namespace Visit

variable {d : Document} {path asked asked' : List String} {t t' t'' : RefTable} {p : String}
  {u : Descriptor}

/-- Two steps one after another. -/
theorem trans (h : Visit d path asked t t') (h' : Visit d path asked' t' t'') :
    Visit d path (asked ++ asked') t t'' where
  grows := h.grows.trans h'.grows
  found := by
    intro q hq
    rcases List.mem_append.1 hq with hq | hq
    · rcases h.found q hq with hk | ⟨hp, hm⟩
      · exact Or.inl (h'.grows.mem_keys hk)
      · exact Or.inr ⟨hp, h'.grows.marks q hm⟩
    · exact h'.found q hq
  reached := by
    intro p hp
    rcases h'.reached p hp with hp | ⟨hn, q, hq, hl⟩
    · rcases h.reached p hp with hp | ⟨hn, q, hq, hl⟩
      · exact Or.inl hp
      · exact Or.inr ⟨hn, q, List.mem_append_left _ hq, hl⟩
    · exact Or.inr ⟨hn, q, List.mem_append_right _ hq, hl⟩
  marked := by
    intro q hq
    rcases h'.marked q hq with hq | hc | ⟨hp, r, hr, hl⟩
    · rcases h.marked q hq with hq | hc | ⟨hp, r, hr, hl⟩
      · exact Or.inl hq
      · exact Or.inr (Or.inl (h'.grows.onCycle hc))
      · exact Or.inr (Or.inr ⟨hp, r, List.mem_append_left _ hr, h'.grows.leads hl⟩)
    · exact Or.inr (Or.inl hc)
    · exact Or.inr (Or.inr ⟨hp, r, List.mem_append_right _ hr, hl⟩)
  entered := by
    intro p u hu
    rcases h'.entered p u hu with hu' | he
    · rcases h.entered p u hu' with hu'' | he
      · exact Or.inl hu''
      · exact Or.inr (he.grows (RefTable.mem_keys_of_get? hu') h'.grows)
    · exact Or.inr he

/-- Asking for what is in the table. -/
theorem known (hp : p ∈ t.keys) : Visit d path [p] t t where
  grows := .refl t
  found := by simp [hp]
  reached := fun _ hp => Or.inl hp
  marked := fun _ hq => Or.inl hq
  entered := fun _ _ hu => Or.inl hu

/-- Asking for what is being resolved. -/
theorem closing (hp : p ∈ path) : Visit d path [p] t (t.mark p) where
  grows := .mark t p
  found := by
    intro q hq
    obtain rfl := List.mem_singleton.1 hq
    exact Or.inr ⟨hp, RefTable.isRecursive_mark.2 (Or.inl rfl)⟩
  reached := by
    intro q hq
    rw [RefTable.keys_mark] at hq
    exact Or.inl hq
  marked := by
    intro q hq
    rcases RefTable.isRecursive_mark.1 hq with rfl | hq
    · exact Or.inr (Or.inr ⟨hp, q, by simp, .refl⟩)
    · exact Or.inl hq
  entered := by
    intro q v hv
    rw [RefTable.get?_mark] at hv
    exact Or.inl hv

/-- A pointer that is being resolved is not entered before its own resolution ends. -/
theorem not_mem_keys (h : Visit d path asked t t') (hp : p ∈ path) (hk : p ∉ t.keys) :
    p ∉ t'.keys := by
  intro hk'
  rcases h.reached p hk' with hk' | ⟨hn, -⟩
  · exact hk hk'
  · exact hn hp

/-- The expansion of a pointer, from the step that resolves its schema. -/
theorem expand (h : Visit d (p :: path) u.pointers t t') (hp : p ∉ path) (hk : p ∉ t.keys)
    (he : expansion? d p = some u) : Visit d path [p] t (t'.insert p u) := by
  have hk' : p ∉ t'.keys := h.not_mem_keys List.mem_cons_self hk
  have hgrows : t'.Grows (t'.insert p u) := .insert hk' u
  have hself : (t'.insert p u).get? p = some u := RefTable.get?_insert_self hk' u
  have hmem : p ∈ (t'.insert p u).keys := RefTable.mem_keys_of_get? hself
  -- Whatever the entry leads to, its pointer leads to.
  have hfrom : ∀ {r q}, r ∈ u.pointers → t'.Leads r q →
      Relation.TransGen (t'.insert p u).Refers p q :=
    fun hr hl => .head' ⟨u, hself, hr⟩ (hgrows.leads hl)
  exact {
    grows := h.grows.trans hgrows
    found := by simp [hmem]
    reached := by
      intro q hq
      rw [RefTable.keys_insert hk', List.mem_append, List.mem_singleton] at hq
      rcases hq with hq | rfl
      · rcases h.reached q hq with hq | ⟨hn, r, hr, hl⟩
        · exact Or.inl hq
        · exact Or.inr ⟨fun hq => hn (List.mem_cons_of_mem _ hq), p, by simp,
            .head ⟨u, he, hr⟩ hl⟩
      · exact Or.inr ⟨hp, q, by simp, .refl⟩
    marked := by
      intro q hq
      rw [RefTable.isRecursive_insert] at hq
      rcases h.marked q hq with hq | hc | ⟨hq, r, hr, hl⟩
      · exact Or.inl hq
      · exact Or.inr (Or.inl (hgrows.onCycle hc))
      · rcases List.mem_cons.1 hq with rfl | hq
        · exact Or.inr (Or.inl (hfrom hr hl))
        · exact Or.inr (Or.inr ⟨hq, p, by simp, (hfrom hr hl).to_reflTransGen⟩)
    entered := by
      intro q v hv
      rcases RefTable.get?_insert_cases hk' hv with ⟨rfl, rfl⟩ | hv
      · refine Or.inr ⟨he, fun r hr => ?_, fun r hr => ?_⟩
        · rcases h.found r hr with hr | ⟨-, hm⟩
          · exact Or.inl (RefTable.before_insert hk' v hr)
          · exact Or.inr (by simpa using hm)
        · rcases h.found r hr with hr | ⟨hr, -⟩
          · exact Or.inl (hgrows.mem_keys hr)
          · rcases List.mem_cons.1 hr with rfl | hr
            · exact Or.inl hmem
            · exact Or.inr hr
      · rcases h.entered q v hv with hold | hnew
        · exact Or.inl hold
        · have hnew' := hnew.grows (RefTable.mem_keys_of_get? hv) hgrows
          refine Or.inr ⟨hnew'.expansion, hnew'.ordered, fun r hr => ?_⟩
          rcases hnew'.closed r hr with hr | hr
          · exact Or.inl hr
          · rcases List.mem_cons.1 hr with rfl | hr
            · exact Or.inl hmem
            · exact Or.inr hr }

end Visit

/-! ## Schemas -/

section Inversion

variable {d : Document} {path : List String} {pointer : String} {σ σ' : Progress} {t : Descriptor}

/-- An array is resolved by resolving its items. -/
theorem run_arrayOf_eq_ok {name? : Option String} {s : Schema} {context : String} :
    (arrayOf d path name? s context).run σ = .ok (t, σ') ↔
      ∃ it e, s.items = some it ∧ t = .array name? e ∧
        (typeOf d path it (context ++ "Item")).run σ = .ok (e, σ') := by
  rw [arrayOf]
  split
  · rename_i hi
    simp [run_refuse, hi]
  · rename_i it hi
    constructor
    · intro h
      obtain ⟨e, σ₁, he, h⟩ := run_bind_eq_ok.1 h
      obtain ⟨rfl, rfl⟩ := run_pure_eq_ok.1 h
      exact ⟨it, e, hi, rfl, he⟩
    · rintro ⟨it', e, hi', rfl, he⟩
      obtain rfl := Option.some.inj (hi.symm.trans hi')
      exact run_bind_eq_ok.2 ⟨e, σ', he, rfl⟩

theorem run_reference_of_mem_keys (h : pointer ∈ σ.table.keys) :
    (reference d path pointer).run σ = .ok (.ref pointer, σ) := by
  rw [reference, run_get_bind, if_pos (RefTable.contains_iff.2 h)]
  rfl

theorem run_reference_of_mem_path (h : pointer ∉ σ.table.keys) (hp : pointer ∈ path) :
    (reference d path pointer).run σ =
      .ok (.ref pointer, { σ with table := σ.table.mark pointer }) := by
  have hc : ¬ σ.table.contains pointer = true := fun hc => h (RefTable.contains_iff.1 hc)
  rw [reference, run_get_bind, if_neg hc]
  split
  · rfl
  · rename_i hn
    simp [hp] at hn

/-- A pointer that is neither in the table nor on the path is expanded, and its entry is made when
its schema has been resolved. -/
theorem run_reference_eq_ok (h : pointer ∉ σ.table.keys) (hp : pointer ∉ path) :
    (reference d path pointer).run σ = .ok (t, σ') ↔
      t = .ref pointer ∧ ∃ s name u σ₁, d.schema? pointer = some s ∧
        Naming.typeName? (Naming.simpleName pointer) = some name ∧
        (named d (pointer :: path) s name).run { σ with entered := σ.entered ++ [pointer] } =
          .ok (u, σ₁) ∧
        σ' = { σ₁ with table := σ₁.table.insert pointer u } := by
  have hc : ¬ σ.table.contains pointer = true := fun hc => h (RefTable.contains_iff.1 hc)
  rw [reference, run_get_bind, if_neg hc]
  split
  · rename_i hn
    simp [hp] at hn
  · split
    · rename_i hs
      simp [hs, run_refuse]
    · rename_i s hs
      constructor
      · intro hr
        obtain ⟨name, σ₀, hrun, hr⟩ := run_bind_eq_ok.1 hr
        obtain ⟨hname, rfl⟩ := run_typeName_eq_ok.1 hrun
        rw [run_modify_bind] at hr
        obtain ⟨u, σ₁, hu, hr⟩ := run_bind_eq_ok.1 hr
        rw [run_modify_bind] at hr
        obtain ⟨rfl, rfl⟩ := run_pure_eq_ok.1 hr
        exact ⟨rfl, s, name, u, σ₁, hs, hname, hu, rfl⟩
      · rintro ⟨rfl, s', name, u, σ₁, hs', hname, hu, rfl⟩
        obtain rfl := Option.some.inj (hs.symm.trans hs')
        refine run_bind_eq_ok.2 ⟨name, σ, run_typeName_eq_ok.2 ⟨hname, rfl⟩, ?_⟩
        rw [run_modify_bind]
        refine run_bind_eq_ok.2 ⟨u, σ₁, hu, ?_⟩
        rw [run_modify_bind]
        exact run_pure _ _

end Inversion

/-- What the pointers of a schema's properties are. -/
abbrev propertyPointers (ps : List Property) : List String :=
  ps.flatMap fun p => p.type.pointers

/-- A schema that is resolved gets the descriptor it has by itself, by a step that asks for the
pointers of this descriptor; likewise for arrays, properties, pointers and named schemas. -/
theorem visit_all (d : Document) :
    (∀ path s context σ t σ', (typeOf d path s context).run σ = .ok (t, σ') →
      shapeOf? s context = some t ∧ Visit d path t.pointers σ.table σ'.table) ∧
    (∀ path required context props σ ps σ',
      (propertiesOf d path required context props).run σ = .ok (ps, σ') →
      propertyShapes? required context props = some ps ∧
        Visit d path (propertyPointers ps) σ.table σ'.table) ∧
    (∀ path name? s context σ t σ', (arrayOf d path name? s context).run σ = .ok (t, σ') →
      arrayShape? name? s context = some t ∧ Visit d path t.pointers σ.table σ'.table) ∧
    (∀ path pointer σ t σ', (reference d path pointer).run σ = .ok (t, σ') →
      t = .ref pointer ∧ Visit d path [pointer] σ.table σ'.table) ∧
    (∀ path s name σ t σ', (named d path s name).run σ = .ok (t, σ') →
      namedShape? s name = some t ∧ Visit d path t.pointers σ.table σ'.table) := by
  apply typeOf.mutual_induct d
  -- `typeOf`: a pointer, a composition, a scalar, an array, an object, an unknown type.
  · intro path s context pointer hr ih σ t σ' h
    rw [typeOf, hr] at h
    obtain ⟨rfl, hv⟩ := ih σ t σ' h
    exact ⟨by rw [shapeOf?, hr], hv⟩
  · intro path s context hr hc σ t σ' h
    rw [typeOf, hr] at h
    simp [hc, run_refuse] at h
  · intro path s context hr hc u hu σ t σ' h
    rw [typeOf, hr] at h
    simp only [hc, hu, Bool.false_eq_true, if_false] at h
    obtain ⟨rfl, rfl⟩ := run_pure_eq_ok.1 h
    refine ⟨by rw [shapeOf?, hr]; simp [hc, hu], ?_⟩
    rw [pointers_scalarOf? hu]
    exact .refl d path σ.table
  · intro path s context hr hc hu ha ih σ t σ' h
    rw [typeOf, hr] at h
    simp only [hc, hu, ha, Bool.false_eq_true, if_false, if_true] at h
    obtain ⟨hs, hv⟩ := ih σ t σ' h
    exact ⟨by rw [shapeOf?, hr]; simp [hc, hu, ha, hs], hv⟩
  · intro path s context hr hc hu ha ho ih σ t σ' h
    rw [typeOf, hr] at h
    simp only [hc, hu, ha, ho, Bool.false_eq_true, if_false, if_true] at h
    obtain ⟨ps, σ₁, hps, hp⟩ := run_bind_eq_ok.1 h
    obtain ⟨rfl, rfl⟩ := run_pure_eq_ok.1 hp
    obtain ⟨hs, hv⟩ := ih σ ps σ₁ hps
    exact ⟨by rw [shapeOf?, hr]; simp [hc, hu, ha, ho, hs], by simpa using hv⟩
  · intro path s context hr hc hu ha ho σ t σ' h
    rw [typeOf, hr] at h
    simp [hc, hu, ha, ho, run_refuse] at h
  -- `propertiesOf`: none, or one and the others.
  · intro path required context σ ps σ' h
    rw [propertiesOf] at h
    obtain ⟨rfl, rfl⟩ := run_pure_eq_ok.1 h
    exact ⟨by rw [propertyShapes?], .refl d path σ.table⟩
  · intro path required context name s rest ihs ihrest σ ps σ' h
    rw [propertiesOf] at h
    obtain ⟨t, σ₁, ht, h⟩ := run_bind_eq_ok.1 h
    obtain ⟨more, σ₂, hmore, h⟩ := run_bind_eq_ok.1 h
    obtain ⟨rfl, rfl⟩ := run_pure_eq_ok.1 h
    obtain ⟨hs, hv⟩ := ihs σ t σ₁ ht
    obtain ⟨hs', hv'⟩ := ihrest σ₁ more σ₂ hmore
    exact ⟨by rw [propertyShapes?]; simp [hs, hs'], by simpa using hv.trans hv'⟩
  -- `arrayOf`: without items, or with.
  · intro path name? s context hi σ t σ' h
    obtain ⟨it, -, hi', -⟩ := run_arrayOf_eq_ok.1 h
    simp [hi] at hi'
  · intro path name? s context it hi ih σ t σ' h
    obtain ⟨it', e, hi', rfl, he⟩ := run_arrayOf_eq_ok.1 h
    obtain rfl := Option.some.inj (hi.symm.trans hi')
    obtain ⟨hs, hv⟩ := ih σ e σ' he
    exact ⟨arrayShape?_eq_some_iff.2 ⟨it, e, hi, rfl, hs⟩, by simpa using hv⟩
  -- `reference`: in the table, on the path, or to be expanded.
  · intro path pointer ih σ t σ' h
    by_cases hk : pointer ∈ σ.table.keys
    · rw [run_reference_of_mem_keys hk] at h
      cases h
      exact ⟨rfl, .known hk⟩
    by_cases hp : pointer ∈ path
    · rw [run_reference_of_mem_path hk hp] at h
      cases h
      exact ⟨rfl, .closing hp⟩
    · obtain ⟨rfl, s, name, u, σ₁, hs, hname, hu, rfl⟩ := (run_reference_eq_ok hk hp).1 h
      obtain ⟨hu, hv⟩ := ih (by simpa using hp) s hs name _ u σ₁ hu
      exact ⟨rfl, hv.expand hp hk (expansion?_eq_some_iff.2 ⟨s, name, hs, hname, hu⟩)⟩
  -- `named`: a pointer or composition, an array, an object, anything else.
  · intro path s name hr ih σ t σ' h
    rw [named, if_pos hr] at h
    obtain ⟨hs, hv⟩ := ih σ t σ' h
    exact ⟨by rw [namedShape?, if_pos hr, hs], hv⟩
  · intro path s name hr ha ih σ t σ' h
    rw [named, if_neg hr, if_pos ha] at h
    obtain ⟨hs, hv⟩ := ih σ t σ' h
    exact ⟨by rw [namedShape?, if_neg hr, if_pos ha, hs], hv⟩
  · intro path s name hr ha ho ih σ t σ' h
    rw [named, if_neg hr, if_neg ha, if_pos ho] at h
    obtain ⟨ps, σ₁, hps, hp⟩ := run_bind_eq_ok.1 h
    obtain ⟨rfl, rfl⟩ := run_pure_eq_ok.1 hp
    obtain ⟨hs, hv⟩ := ih σ ps σ₁ hps
    exact ⟨by rw [namedShape?, if_neg hr, if_neg ha, if_pos ho, hs]; rfl, by simpa using hv⟩
  · intro path s name hr ha ho ih σ t σ' h
    rw [named, if_neg hr, if_neg ha, if_neg ho] at h
    obtain ⟨hs, hv⟩ := ih σ t σ' h
    exact ⟨by rw [namedShape?, if_neg hr, if_neg ha, if_neg ho, hs], hv⟩

/-- A schema is resolved, whatever has been resolved before and wherever it stands, if it has a
descriptor and everything that this leads to can be expanded. -/
theorem exists_run_all (d : Document) :
    (∀ path s context t σ, shapeOf? s context = some t → (∀ q ∈ t.pointers, Expandable d q) →
      ∃ r, (typeOf d path s context).run σ = .ok r) ∧
    (∀ path required context props ps σ, propertyShapes? required context props = some ps →
      (∀ q ∈ propertyPointers ps, Expandable d q) →
      ∃ r, (propertiesOf d path required context props).run σ = .ok r) ∧
    (∀ path name? s context t σ, arrayShape? name? s context = some t →
      (∀ q ∈ t.pointers, Expandable d q) → ∃ r, (arrayOf d path name? s context).run σ = .ok r) ∧
    (∀ path pointer σ, Expandable d pointer → ∃ r, (reference d path pointer).run σ = .ok r) ∧
    (∀ path s name t σ, namedShape? s name = some t → (∀ q ∈ t.pointers, Expandable d q) →
      ∃ r, (named d path s name).run σ = .ok r) := by
  apply typeOf.mutual_induct d
  -- `typeOf`: a pointer, a composition, a scalar, an array, an object, an unknown type.
  · intro path s context pointer hr ih t σ hs he
    rw [shapeOf?, hr] at hs
    cases hs
    rw [typeOf, hr]
    exact ih σ (he pointer (by simp))
  · intro path s context hr hc t σ hs
    rw [shapeOf?, hr] at hs
    simp [hc] at hs
  · intro path s context hr hc u hu t σ hs he
    rw [typeOf, hr]
    simp only [hc, hu, Bool.false_eq_true, if_false]
    exact ⟨_, run_pure u σ⟩
  · intro path s context hr hc hu ha ih t σ hs he
    rw [shapeOf?, hr] at hs
    rw [typeOf, hr]
    simp only [hc, hu, ha, Bool.false_eq_true, if_false, if_true] at hs ⊢
    exact ih t σ hs he
  · intro path s context hr hc hu ha ho ih t σ hs he
    rw [shapeOf?, hr] at hs
    rw [typeOf, hr]
    simp only [hc, hu, ha, ho, Bool.false_eq_true, if_false, if_true] at hs ⊢
    obtain ⟨ps, hps, rfl⟩ := Option.map_eq_some_iff.1 hs
    obtain ⟨⟨ps', σ'⟩, hr'⟩ := ih ps σ hps (by simpa using he)
    exact ⟨_, (run_bind_of_ok hr').trans (run_pure _ σ')⟩
  · intro path s context hr hc hu ha ho t σ hs
    rw [shapeOf?, hr] at hs
    simp [hc, hu, ha, ho] at hs
  -- `propertiesOf`: none, or one and the others.
  · intro path required context ps σ _ _
    rw [propertiesOf]
    exact ⟨_, run_pure [] σ⟩
  · intro path required context name s rest ihs ihrest ps σ hs he
    obtain ⟨t, more, ht, hmore, rfl⟩ := propertyShapes?_cons_eq_some_iff.1 hs
    rw [propertiesOf]
    obtain ⟨⟨t', σ₁⟩, h₁⟩ := ihs t σ ht fun q hq => he q (by simp [hq])
    obtain ⟨⟨more', σ₂⟩, h₂⟩ := ihrest more σ₁ hmore fun q hq => he q (by
      simp only [propertyPointers, List.flatMap_cons, List.mem_append]
      exact Or.inr hq)
    rw [run_bind_of_ok h₁, run_bind_of_ok h₂]
    exact ⟨_, run_pure _ σ₂⟩
  -- `arrayOf`: without items, or with.
  · intro path name? s context hi t σ hs
    obtain ⟨it, -, hi', -⟩ := arrayShape?_eq_some_iff.1 hs
    simp [hi] at hi'
  · intro path name? s context it hi ih t σ hs he
    obtain ⟨it', e, hi', rfl, hs'⟩ := arrayShape?_eq_some_iff.1 hs
    obtain rfl := Option.some.inj (hi.symm.trans hi')
    obtain ⟨⟨e', σ'⟩, h'⟩ := ih e σ hs' (by simpa using he)
    exact ⟨_, run_arrayOf_eq_ok.2 ⟨it, e', hi, rfl, h'⟩⟩
  -- `reference`: in the table, on the path, or to be expanded.
  · intro path pointer ih σ he
    by_cases hk : pointer ∈ σ.table.keys
    · exact ⟨_, run_reference_of_mem_keys hk⟩
    by_cases hp : pointer ∈ path
    · exact ⟨_, run_reference_of_mem_path hk hp⟩
    · obtain ⟨u, hu⟩ := he.expansion?
      obtain ⟨s, name, hs, hname, hshape⟩ := expansion?_eq_some_iff.1 hu
      obtain ⟨⟨u', σ'⟩, h'⟩ := ih (by simpa using hp) s hs name u
        { σ with entered := σ.entered ++ [pointer] } hshape fun q hq => he.refers ⟨u, hu, hq⟩
      exact ⟨_, (run_reference_eq_ok hk hp).2 ⟨rfl, s, name, u', σ', hs, hname, h', rfl⟩⟩
  -- `named`: a pointer or composition, an array, an object, anything else.
  · intro path s name hr ih t σ hs he
    rw [namedShape?, if_pos hr] at hs
    rw [named, if_pos hr]
    exact ih t σ hs he
  · intro path s name hr ha ih t σ hs he
    rw [namedShape?, if_neg hr, if_pos ha] at hs
    rw [named, if_neg hr, if_pos ha]
    exact ih t σ hs he
  · intro path s name hr ha ho ih t σ hs he
    rw [namedShape?, if_neg hr, if_neg ha, if_pos ho] at hs
    rw [named, if_neg hr, if_neg ha, if_pos ho]
    obtain ⟨ps, hps, rfl⟩ := Option.map_eq_some_iff.1 hs
    obtain ⟨⟨ps', σ'⟩, hr'⟩ := ih ps σ hps (by simpa using he)
    exact ⟨_, (run_bind_of_ok hr').trans (run_pure _ σ')⟩
  · intro path s name hr ha ho ih t σ hs he
    rw [namedShape?, if_neg hr, if_neg ha, if_neg ho] at hs
    rw [named, if_neg hr, if_neg ha, if_neg ho]
    exact ih t σ hs he

section Specifications

variable {d : Document} {path : List String} {σ σ' : Progress} {t : Descriptor}

theorem visit_typeOf {s : Schema} {context : String}
    (h : (typeOf d path s context).run σ = .ok (t, σ')) :
    shapeOf? s context = some t ∧ Visit d path t.pointers σ.table σ'.table :=
  (visit_all d).1 path s context σ t σ' h

theorem visit_reference {pointer : String} (h : (reference d path pointer).run σ = .ok (t, σ')) :
    t = .ref pointer ∧ Visit d path [pointer] σ.table σ'.table :=
  (visit_all d).2.2.2.1 path pointer σ t σ' h

theorem exists_run_typeOf {s : Schema} {context : String} (hs : shapeOf? s context = some t)
    (he : ∀ q ∈ t.pointers, Expandable d q) (path : List String) (σ : Progress) :
    ∃ r, (typeOf d path s context).run σ = .ok r :=
  (exists_run_all d).1 path s context t σ hs he

theorem exists_run_reference {pointer : String} (he : Expandable d pointer) (path : List String)
    (σ : Progress) : ∃ r, (reference d path pointer).run σ = .ok r :=
  (exists_run_all d).2.2.2.1 path pointer σ he

end Specifications

end Resolve
end ApiContract
