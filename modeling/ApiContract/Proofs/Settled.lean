import ApiContract.Proofs.Chains
import ApiContract.Proofs.Related
import ApiContract.Proofs.Visit

/-!
# Tables between operations

Between operations nothing is being resolved, and the table is what steps have made of the empty
one.  Then an entry is the expansion of its pointer, whatever the order of the steps, and the table
has with a pointer everything that it leads to.

**Results:**

* `Settled.get?`, `Settled.mem_keys_of_leads`, `Settled.mem_keys_iff`: what a settled table
  contains;
* `Settled.resolve?_eq`: settled tables agree on where chains of pointers end;
* `Steady`: a step of resolution has the same outcome in all settled tables, with one rule for each
  way in which steps are put together.
-/

namespace ApiContract
namespace Resolve

/-- Tables that steps outside any path make of the empty one. -/
def Settled (d : Document) (t : RefTable) : Prop :=
  ∃ asked, Visit d [] asked .empty t

namespace Settled

variable {d : Document} {t t' : RefTable} {p q : String} {u v : Descriptor} {asked : List String}

theorem empty (d : Document) : Settled d .empty :=
  ⟨[], .refl d [] .empty⟩

/-- Steps outside any path keep a table settled. -/
theorem visit (h : Settled d t) (hv : Visit d [] asked t t') : Settled d t' := by
  obtain ⟨before, hb⟩ := h
  exact ⟨before ++ asked, hb.trans hv⟩

theorem entered (h : Settled d t) (hu : t.get? p = some u) : Entered d [] t p u := by
  obtain ⟨_, hv⟩ := h
  rcases hv.entered p u hu with he | he
  · cases he
  · exact he

/-- An entry is the expansion of its pointer. -/
theorem get? (h : Settled d t) (hu : t.get? p = some u) : expansion? d p = some u :=
  (h.entered hu).expansion

/-- What is in an entry is in the table. -/
theorem mem_keys (h : Settled d t) (hu : t.get? p = some u) (hq : q ∈ u.pointers) : q ∈ t.keys := by
  rcases (h.entered hu).closed q hq with hq | hq
  · exact hq
  · cases hq

/-- In a settled table an entry is the same as an expansion. -/
theorem get?_eq_some_iff (h : Settled d t) (hp : p ∈ t.keys) :
    t.get? p = some u ↔ expansion? d p = some u := by
  obtain ⟨v, hv⟩ := RefTable.exists_get?_of_mem_keys hp
  rw [hv, h.get? hv]

/-- With a pointer the table has everything that it leads to. -/
theorem mem_keys_of_leads (h : Settled d t) (hp : p ∈ t.keys) (hl : Leads d p q) : q ∈ t.keys := by
  induction hl with
  | refl => exact hp
  | tail _ hr ih =>
      obtain ⟨u, hu, hq⟩ := hr
      exact h.mem_keys ((h.get?_eq_some_iff ih).2 hu) hq

theorem expandable (h : Settled d t) (hp : p ∈ t.keys) : Expandable d p := by
  intro q hl
  obtain ⟨u, hu⟩ := RefTable.exists_get?_of_mem_keys (h.mem_keys_of_leads hp hl)
  exact ⟨u, h.get? hu⟩

/-- What is marked lies on a cycle. -/
theorem onCycle_of_isRecursive (h : Settled d t) (hq : t.isRecursive q = true) :
    Relation.TransGen t.Refers q q := by
  obtain ⟨_, hv⟩ := h
  rcases hv.marked q hq with hq | hc | ⟨hq, -⟩
  · cases hq
  · exact hc
  · cases hq

/-- A pointer that stands for something without pointers, such as a scalar, is not marked. -/
theorem isRecursive_eq_false (h : Settled d t) {u : Descriptor} (hr : t.resolve? (.ref q) = some u)
    (hu : u.pointers = []) : t.isRecursive q = false := by
  obtain ⟨ps, hc⟩ := RefTable.resolve?_eq_some_iff.1 hr
  rw [← Bool.not_eq_true]
  exact fun hq => hc.not_transGen_refers hu (h.onCycle_of_isRecursive hq)

/-- A reference leads to a marked pointer, or to one that was inserted before. -/
theorem before_or_isRecursive (h : Settled d t) (hr : t.Refers p q) :
    t.Before q p ∨ t.isRecursive q = true := by
  obtain ⟨u, hu, hq⟩ := hr
  exact (h.entered hu).ordered q hq

/-- On a cycle a pointer is marked: otherwise each would have been inserted after the next one. -/
theorem exists_isRecursive_of_isCycle (h : Settled d t) {c : List String} (hc : t.IsCycle c) :
    ∃ p ∈ c, t.isRecursive p = true := by
  by_contra hn
  cases c with
  | nil => exact hc
  | cons p rest =>
      have hmem : ∀ q ∈ p :: (rest ++ [p]), q ∈ p :: rest := by
        intro q hq
        simp at hq ⊢
        tauto
      have hafter : List.IsChain (fun a b => t.keys.idxOf b < t.keys.idxOf a)
          (p :: (rest ++ [p])) := by
        refine List.IsChain.imp_of_mem_imp (fun a b _ hb hr => ?_) hc
        rcases h.before_or_isRecursive hr with hbefore | hm
        · exact hbefore.2
        · exact absurd ⟨b, hmem b hb, hm⟩ hn
      exact Nat.lt_irrefl _ (RefTable.lt_of_transGen (RefTable.transGen_of_walk hafter))

/-- What is asked for outside any path is in the table afterwards. -/
theorem subset_keys (hv : Visit d [] asked t t') : asked ⊆ t'.keys := by
  intro q hq
  rcases hv.found q hq with hq | ⟨hq, -⟩
  · exact hq
  · cases hq

/-- A step outside any path adds exactly what the pointers asked for lead to. -/
theorem mem_keys_iff (h : Settled d t) (hv : Visit d [] asked t t') :
    p ∈ t'.keys ↔ p ∈ t.keys ∨ ∃ q ∈ asked, Leads d q p := by
  constructor
  · intro hp
    rcases hv.reached p hp with hp | ⟨-, hq⟩
    · exact Or.inl hp
    · exact Or.inr hq
  · rintro (hp | ⟨q, hq, hl⟩)
    · exact hv.grows.mem_keys hp
    · exact (h.visit hv).mem_keys_of_leads (subset_keys hv hq) hl

/-- Steps outside any path make of the empty table the expansions of what is asked for, and of
everything that this leads to. -/
theorem get?_iff_of_visit (hv : Visit d [] asked .empty t) :
    t.get? p = some u ↔ (∃ q ∈ asked, Leads d q p) ∧ expansion? d p = some u := by
  have hs : Settled d t := ⟨asked, hv⟩
  have hkeys : p ∈ t.keys ↔ ∃ q ∈ asked, Leads d q p := by
    rw [(empty d).mem_keys_iff hv]
    exact or_iff_right List.not_mem_nil
  constructor
  · intro hu
    exact ⟨hkeys.1 (RefTable.mem_keys_of_get? hu), hs.get? hu⟩
  · rintro ⟨hq, hu⟩
    exact (hs.get?_eq_some_iff (hkeys.2 hq)).2 hu

/-- A chain of one settled table is a chain of every other that has its first pointer. -/
theorem chain (h : Settled d t) (h' : Settled d t') {u v : Descriptor} {ps : List String}
    (hc : t.Chain u ps v) (hu : u.pointers ⊆ t'.keys) : t'.Chain u ps v := by
  induction hc with
  | here hn => exact .here hn
  | @step p u v ps hg _ ih =>
      have hp : p ∈ t'.keys := hu (by simp)
      have hg' := (h'.get?_eq_some_iff hp).2 (h.get? hg)
      exact .step hg' (ih fun q hq => h'.mem_keys hg' hq)

/-- Settled tables that have the pointers of a descriptor agree on what it stands for. -/
theorem resolve?_eq (h : Settled d t) (h' : Settled d t') (hu : u.pointers ⊆ t.keys)
    (hu' : u.pointers ⊆ t'.keys) : t.resolve? u = t'.resolve? u := by
  apply Option.ext
  intro v
  rw [RefTable.resolve?_eq_some_iff, RefTable.resolve?_eq_some_iff]
  constructor
  · rintro ⟨ps, hc⟩
    exact ⟨ps, h.chain h' hc hu'⟩
  · rintro ⟨ps, hc⟩
    exact ⟨ps, h'.chain h hc hu⟩

end Settled

/-! ## Steady steps -/

section Outcomes

variable {α β γ : Type}

/-- A step that gives `a` and asks for pointers, in all settled tables that have the known ones. -/
def Yields (d : Document) (known : List String) (x : Resolving α) (a : α) (asked : List String) :
    Prop :=
  ∀ σ : Progress, Settled d σ.table → known ⊆ σ.table.keys →
    ∃ σ', x.run σ = .ok (a, σ') ∧ Visit d [] asked σ.table σ'.table

/-- A step that fails in all settled tables that have the known pointers. -/
def Fails (d : Document) (known : List String) (x : Resolving α) : Prop :=
  ∀ σ : Progress, Settled d σ.table → known ⊆ σ.table.keys → ∃ e, x.run σ = .error e

section Rules

variable {d : Document} {known known' asked more : List String} {x : Resolving α}
  {f : α → Resolving β} {a : α} {b : β}

theorem Yields.weaken (h : Yields d known x a asked) (hk : known ⊆ known') :
    Yields d known' x a asked :=
  fun σ hσ hk' => h σ hσ (List.Subset.trans hk hk')

theorem Fails.weaken (h : Fails d known x) (hk : known ⊆ known') : Fails d known' x :=
  fun σ hσ hk' => h σ hσ (List.Subset.trans hk hk')

theorem Yields.pure (a : α) : Yields d known (Pure.pure a) a [] :=
  fun σ _ _ => ⟨σ, run_pure a σ, .refl d [] σ.table⟩

/-- What a step asks for is known after it. -/
theorem known_append_subset {σ σ' : Progress} (hk : known ⊆ σ.table.keys)
    (hv : Visit d [] asked σ.table σ'.table) : known ++ asked ⊆ σ'.table.keys :=
  List.append_subset.2 ⟨fun _ hq => hv.grows.mem_keys (hk hq), Settled.subset_keys hv⟩

theorem Yields.bind (hx : Yields d known x a asked)
    (hf : Yields d (known ++ asked) (f a) b more) :
    Yields d known (x >>= f) b (asked ++ more) := by
  intro σ hσ hk
  obtain ⟨σ₁, hr, hv⟩ := hx σ hσ hk
  obtain ⟨σ₂, hr', hv'⟩ := hf σ₁ (hσ.visit hv) (known_append_subset hk hv)
  exact ⟨σ₂, (run_bind_of_ok hr).trans hr', hv.trans hv'⟩

theorem Yields.bind_fails (hx : Yields d known x a asked) (hf : Fails d (known ++ asked) (f a)) :
    Fails d known (x >>= f) := by
  intro σ hσ hk
  obtain ⟨σ₁, hr, hv⟩ := hx σ hσ hk
  obtain ⟨e, he⟩ := hf σ₁ (hσ.visit hv) (known_append_subset hk hv)
  exact ⟨e, (run_bind_of_ok hr).trans he⟩

theorem Fails.bind (hx : Fails d known x) : Fails d known (x >>= f) := by
  intro σ hσ hk
  obtain ⟨e, he⟩ := hx σ hσ hk
  exact ⟨e, run_bind_of_error he⟩

end Rules

/-- A step with the same outcome in all settled tables that have the known pointers; its value and
the pointers that it asks for are related by `P`. -/
def Steady (d : Document) (known : List String) (x : Resolving α) (P : α → List String → Prop) :
    Prop :=
  (∃ a asked, P a asked ∧ Yields d known x a asked) ∨ Fails d known x

namespace Steady

variable {d : Document} {known known' : List String} {x : Resolving α} {f : α → Resolving β}
  {P P' : α → List String → Prop} {Q : β → List String → Prop}

theorem imp (h : Steady d known x P) (hP : ∀ a asked, P a asked → P' a asked) :
    Steady d known x P' := by
  rcases h with ⟨a, asked, hp, hy⟩ | hf
  · exact Or.inl ⟨a, asked, hP a asked hp, hy⟩
  · exact Or.inr hf

theorem pure {a : α} (h : P a []) : Steady d known (Pure.pure a) P :=
  Or.inl ⟨a, [], h, .pure a⟩

/-- A step that succeeded has the outcome that it has in all settled tables. -/
theorem visit_of_run {a : α} {σ σ' : Progress} (h : Steady d known x P)
    (hs : Settled d σ.table) (hk : known ⊆ σ.table.keys) (hr : x.run σ = .ok (a, σ')) :
    ∃ asked, P a asked ∧ Visit d [] asked σ.table σ'.table := by
  rcases h with ⟨b, asked, hp, hy⟩ | hf
  · obtain ⟨σ₁, hr', hv⟩ := hy σ hs hk
    obtain ⟨rfl, rfl⟩ := Prod.mk.inj (Except.ok.inj (hr.symm.trans hr'))
    exact ⟨asked, hp, hv⟩
  · obtain ⟨e, he⟩ := hf σ hs hk
    rw [hr] at he
    cases he

theorem refuse (e : ResolveError) : Steady d known (Resolve.refuse e : Resolving α) P :=
  Or.inr fun σ _ _ => ⟨e, run_refuse e σ⟩

/-- Nothing is done after a failure. -/
theorem refuse_bind (e : ResolveError) : Steady d known (Resolve.refuse e >>= f) Q :=
  Or.inr (Fails.bind fun σ _ _ => ⟨e, run_refuse e σ⟩)

theorem warn (w : Warning) : Steady d known (Resolve.warn w) fun _ asked => asked = [] :=
  Or.inl ⟨(), [], rfl, fun σ _ _ => ⟨_, rfl, .refl d [] σ.table⟩⟩

/-- A step after another, which may rely on what the first one asked for. -/
theorem bind (hx : Steady d known x P)
    (hf : ∀ a asked, P a asked →
      Steady d (known ++ asked) (f a) fun b more => Q b (asked ++ more)) :
    Steady d known (x >>= f) Q := by
  rcases hx with ⟨a, asked, hp, hy⟩ | hx
  · rcases hf a asked hp with ⟨b, more, hq, hy'⟩ | hf
    · exact Or.inl ⟨b, asked ++ more, hq, hy.bind hy'⟩
    · exact Or.inr (hy.bind_fails hf)
  · exact Or.inr hx.bind

theorem orRefuse {e : ResolveError} {o : Option α} :
    Steady d known (Resolve.orRefuse e o) fun a asked => asked = [] ∧ o = some a := by
  cases o with
  | none => exact .refuse e
  | some a => exact .pure ⟨rfl, rfl⟩

theorem typeName (raw context : String) :
    Steady d known (Resolve.typeName raw context) fun name asked =>
      asked = [] ∧ Naming.typeName? raw = some name :=
  .orRefuse

/-- A part of a step that does not look at the table. -/
theorem lift (e : Except ResolveError α) :
    Steady d known (liftM e : Resolving α) fun a asked => asked = [] ∧ e = .ok a := by
  cases e with
  | error e => exact Or.inr fun σ _ _ => ⟨e, rfl⟩
  | ok a => exact .pure ⟨rfl, rfl⟩

/-- A look at the table that gives the same in all settled tables. -/
theorem look {g : RefTable → γ} {f : γ → Resolving β}
    (hg : ∀ t t', Settled d t → Settled d t' → known ⊆ t.keys → known ⊆ t'.keys → g t = g t')
    (hf : ∀ c, Steady d known (f c) Q) :
    Steady d known (get >>= fun σ => f (g σ.table)) Q := by
  by_cases h : ∃ t, Settled d t ∧ known ⊆ t.keys
  · obtain ⟨t, ht, hk⟩ := h
    have hrun : ∀ σ : Progress, Settled d σ.table → known ⊆ σ.table.keys →
        (get >>= fun σ => f (g σ.table)).run σ = (f (g t)).run σ := by
      intro σ hσ hk'
      rw [run_get_bind, hg _ _ hσ ht hk' hk]
    rcases hf (g t) with ⟨b, asked, hq, hy⟩ | hf
    · refine Or.inl ⟨b, asked, hq, fun σ hσ hk' => ?_⟩
      rw [hrun σ hσ hk']
      exact hy σ hσ hk'
    · refine Or.inr fun σ hσ hk' => ?_
      rw [hrun σ hσ hk']
      exact hf σ hσ hk'
  · exact Or.inr fun σ hσ hk => absurd ⟨σ.table, hσ, hk⟩ h

/-- The same step for every element of a list.  It gives what it gives for every element by itself,
and fails if it fails for one of them. -/
theorem mapM_outcomes {g : α → Resolving β} {as : List α} {R : β → List String → Prop}
    (hg : ∀ a ∈ as, Steady d known (g a) R) :
    (∃ outcomes : List (β × List String),
      List.Forall₂ (fun a o => R o.1 o.2 ∧ Yields d known (g a) o.1 o.2) as outcomes ∧
        Yields d known (as.mapM g) (outcomes.map Prod.fst) (outcomes.flatMap Prod.snd)) ∨
      (∃ a ∈ as, Fails d known (g a)) ∧ Fails d known (as.mapM g) := by
  induction as with
  | nil =>
      refine Or.inl ⟨[], .nil, fun σ _ _ => ⟨σ, ?_, .refl d [] σ.table⟩⟩
      rw [List.mapM_nil]
      exact run_pure [] σ
  | cons a as ih =>
      rw [List.mapM_cons]
      rcases hg a List.mem_cons_self with ⟨b, asked, hr, hy⟩ | hf
      · rcases ih fun a' ha' => hg a' (List.mem_cons_of_mem a ha') with ⟨os, hos, hys⟩ | ⟨he, hfs⟩
        · refine Or.inl ⟨(b, asked) :: os, .cons ⟨hr, hy⟩ hos, ?_⟩
          have hrest : Yields d (known ++ asked) (as.mapM g) _ _ :=
            hys.weaken (List.subset_append_left known asked)
          have hall := hy.bind (f := fun b => as.mapM g >>= fun bs => Pure.pure (b :: bs))
            (hrest.bind (.pure (b :: os.map Prod.fst)))
          simpa using hall
        · obtain ⟨a', ha', hfa⟩ := he
          refine Or.inr ⟨⟨a', List.mem_cons_of_mem a ha', hfa⟩, ?_⟩
          have hrest : Fails d (known ++ asked) (as.mapM g) :=
            hfs.weaken (List.subset_append_left known asked)
          exact hy.bind_fails hrest.bind
      · exact Or.inr ⟨⟨a, List.mem_cons_self, hf⟩, hf.bind⟩

/-- The same step for every element of a list, where what it asks for does not matter. -/
theorem mapM {R : β → Prop} {g : α → Resolving β} {as : List α}
    (hg : ∀ a ∈ as, Steady d known (g a) fun b _ => R b) :
    Steady d known (as.mapM g) fun bs _ => ∀ b ∈ bs, R b := by
  rcases mapM_outcomes hg with ⟨os, hos, hy⟩ | ⟨-, hf⟩
  · refine Or.inl ⟨_, _, fun b hb => ?_, hy⟩
    obtain ⟨o, ho, rfl⟩ := List.mem_map.1 hb
    obtain ⟨a, -, hr, -⟩ := exists_of_mem_right hos ho
    exact hr
  · exact Or.inr hf

/-- A schema is resolved in the same way in all settled tables. -/
theorem typeOf (s : Document.Schema) (context : String) :
    Steady d known (Resolve.typeOf d [] s context) fun t asked => asked = t.pointers := by
  by_cases h : ∃ t, shapeOf? s context = some t ∧ ∀ q ∈ t.pointers, Expandable d q
  · obtain ⟨t, hs, he⟩ := h
    refine Or.inl ⟨t, t.pointers, rfl, fun σ _ _ => ?_⟩
    obtain ⟨⟨t', σ'⟩, hr⟩ := exists_run_typeOf hs he [] σ
    obtain ⟨hs', hv⟩ := visit_typeOf hr
    obtain rfl := Option.some.inj (hs.symm.trans hs')
    exact ⟨σ', hr, hv⟩
  · refine Or.inr fun σ hσ _ => ?_
    cases hr : (Resolve.typeOf d [] s context).run σ with
    | error e => exact ⟨e, rfl⟩
    | ok r =>
        obtain ⟨hs, hv⟩ := visit_typeOf hr
        refine absurd ⟨r.1, hs, fun q hq => ?_⟩ h
        exact (hσ.visit hv).expandable (Settled.subset_keys hv hq)

/-- A pointer is resolved in the same way in all settled tables. -/
theorem reference (pointer : String) :
    Steady d known (Resolve.reference d [] pointer) fun t asked =>
      t = .ref pointer ∧ asked = [pointer] := by
  by_cases h : Expandable d pointer
  · refine Or.inl ⟨.ref pointer, [pointer], ⟨rfl, rfl⟩, fun σ _ _ => ?_⟩
    obtain ⟨⟨t, σ'⟩, hr⟩ := exists_run_reference h [] σ
    obtain ⟨rfl, hv⟩ := visit_reference hr
    exact ⟨σ', hr, hv⟩
  · refine Or.inr fun σ hσ _ => ?_
    cases hr : (Resolve.reference d [] pointer).run σ with
    | error e => exact ⟨e, rfl⟩
    | ok r =>
        obtain ⟨-, hv⟩ := visit_reference hr
        exact absurd ((hσ.visit hv).expandable (Settled.subset_keys hv (by simp))) h

end Steady

end Outcomes

end Resolve
end ApiContract
