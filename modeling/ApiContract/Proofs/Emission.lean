import ApiContract.Emit.Contract
import ApiContract.Proofs.Related

/-!
# Steps of emission

**Input:** an operation whose parts are emitted one after another, each of which may fail.

**Results:**

* `bind_eq_ok`, `map_eq_ok`, `forM_eq_ok_iff`, `mapM_eq_ok`, `exists_mapM_iff`: what a step that
  succeeds has gone through;
* `Argument`, `contractParams_eq_ok`: the arguments of a contract method are those of its
  parameters, in their order and with pairwise different identifiers, and the request body after
  them.
-/

namespace ApiContract
namespace Emit

/-! ## Steps -/

section Steps

variable {ε α β : Type} {x : Except ε α} {b : β}

theorem bind_eq_ok {f : α → Except ε β} : x >>= f = .ok b ↔ ∃ a, x = .ok a ∧ f a = .ok b := by
  cases x with
  | error e => simp [bind, Except.bind]
  | ok a => simp [bind, Except.bind]

theorem map_eq_ok {g : α → β} : x.map g = .ok b ↔ ∃ a, x = .ok a ∧ g a = b := by
  cases x with
  | error e => simp [Except.map]
  | ok a => simp [Except.map]

/-- Two checks one after another. -/
theorem andCheck_eq_ok_iff {x y : Except ε Unit} :
    (do x; y) = .ok () ↔ x = .ok () ∧ y = .ok () := by
  rw [bind_eq_ok]
  exact ⟨fun ⟨_, hx, hy⟩ => ⟨hx, hy⟩, fun ⟨hx, hy⟩ => ⟨(), hx, hy⟩⟩

theorem forM_eq_ok_iff {f : α → Except ε Unit} {as : List α} :
    as.forM f = .ok () ↔ ∀ a ∈ as, f a = .ok () := by
  induction as with
  | nil => simp [pure, Except.pure]
  | cons a as ih =>
      rw [List.forM_eq_forM] at ih ⊢
      rw [List.forM_cons, andCheck_eq_ok_iff, ih, List.forall_mem_cons]

/-- The same step for every element of a list succeeds if it succeeds for every element. -/
theorem mapM_eq_ok {f : α → Except ε β} {as : List α} {bs : List β} :
    as.mapM f = .ok bs ↔ List.Forall₂ (fun a b => f a = .ok b) as bs := by
  induction as generalizing bs with
  | nil =>
      rw [List.mapM_nil, List.forall₂_nil_left_iff]
      constructor
      · intro h
        exact (Except.ok.inj h).symm
      · rintro rfl
        rfl
  | cons a as ih =>
      rw [List.mapM_cons, List.forall₂_cons_left_iff, bind_eq_ok]
      constructor
      · rintro ⟨b, hb, h⟩
        obtain ⟨rest, hrest, h⟩ := bind_eq_ok.1 h
        exact ⟨b, rest, hb, ih.1 hrest, (Except.ok.inj h).symm⟩
      · rintro ⟨b, rest, hb, hrest, rfl⟩
        exact ⟨b, hb, bind_eq_ok.2 ⟨rest, ih.2 hrest, rfl⟩⟩

theorem exists_mapM_iff {f : α → Except ε β} {as : List α} :
    (∃ bs, as.mapM f = .ok bs) ↔ ∀ a ∈ as, ∃ b, f a = .ok b := by
  constructor
  · rintro ⟨bs, hbs⟩ a ha
    obtain ⟨b, -, hb⟩ := exists_of_mem_right (mapM_eq_ok.1 hbs).flip ha
    exact ⟨b, hb⟩
  · intro h
    induction as with
    | nil => exact ⟨[], rfl⟩
    | cons a as ih =>
        rw [List.forall_mem_cons] at h
        obtain ⟨⟨b, hb⟩, hrest⟩ := h
        obtain ⟨bs, hbs⟩ := ih hrest
        exact ⟨b :: bs, mapM_eq_ok.2 (.cons hb (mapM_eq_ok.1 hbs))⟩

end Steps

/-! ## Arguments -/

/-- What a contract method takes for a parameter of a scalar type. -/
def paramArgument (p : Param) (q : Primitive) : ContractParam :=
  ⟨some p.name, Naming.fieldIdent p.name, optionalUnless p.required (.scalar q)⟩

/-- What a contract method takes for a parameter, which is a scalar. -/
def Argument (p : Param) (c : ContractParam) : Prop :=
  ∃ q, p.property.type = .primitive q ∧ c = paramArgument p q

/-- What a contract method takes for a request body. -/
def bodyArgument (b : RequestBody) : ContractParam :=
  ⟨none, requestIdent, optionalUnless b.required (.model b.className)⟩

section Arguments

variable {o : Operation} {cs done : List ContractParam}

theorem paramScalar_eq_ok {p : Param} {q : Primitive} :
    paramScalar o p = .ok q ↔ p.property.type = .primitive q := by
  unfold paramScalar
  split
  · rename_i q' ht
    simp [ht]
  · rename_i hn
    constructor
    · intro h
      cases h
    · intro ht
      exact absurd ht (hn q)

theorem paramsAfter_eq_ok {ps : List Param} (h : paramsAfter o done ps = .ok cs)
    (hdone : (done.map (·.ident)).Nodup) :
    ∃ new, cs = done ++ new ∧ List.Forall₂ Argument ps new ∧ (cs.map (·.ident)).Nodup := by
  induction ps generalizing done with
  | nil =>
      obtain rfl := Except.ok.inj h
      exact ⟨[], (List.append_nil done).symm, .nil, hdone⟩
  | cons p ps ih =>
      rw [paramsAfter] at h
      obtain ⟨q, hq, h⟩ := bind_eq_ok.1 h
      dsimp only at h
      split at h
      · cases h
      · rename_i hfree
        have hfree' : ∀ c ∈ done, c.ident ≠ Naming.fieldIdent p.name := by
          intro c hc he
          exact hfree (List.any_eq_true.2 ⟨c, hc, by simpa using he⟩)
        have hdone' : ((done ++ [paramArgument p q]).map (·.ident)).Nodup := by
          rw [List.map_append, List.nodup_append]
          refine ⟨hdone, by simp, ?_⟩
          intro x hx y hy
          obtain ⟨c, hc, rfl⟩ := List.mem_map.1 hx
          rw [List.mem_singleton.1 hy]
          exact hfree' c hc
        obtain ⟨new, rfl, hnew, hn⟩ := ih h hdone'
        refine ⟨paramArgument p q :: new, ?_, ?_, hn⟩
        · exact List.append_assoc done [paramArgument p q] new
        · exact .cons ⟨q, paramScalar_eq_ok.1 hq, rfl⟩ hnew

/-- The arguments of a contract method are those of the parameters in their order, whose identifiers
are pairwise different, and the request body last. -/
theorem contractParams_eq_ok (h : contractParams o = .ok cs) :
    ∃ ps, cs = ps ++ (o.requestBody.map bodyArgument).toList ∧
      List.Forall₂ Argument o.params ps ∧ (ps.map (·.ident)).Nodup := by
  obtain ⟨ps, hps, h⟩ := bind_eq_ok.1 h
  obtain ⟨_, rfl, hnew, hn⟩ := paramsAfter_eq_ok hps List.nodup_nil
  exact ⟨ps, (Except.ok.inj h).symm, hnew, hn⟩

theorem params_of_contractMethod {c : ContractMethod} (h : contractMethod o = .ok c) :
    contractParams o = .ok c.params := by
  obtain ⟨cs, hcs, h⟩ := bind_eq_ok.1 h
  obtain rfl := Except.ok.inj h
  exact hcs

theorem exists_contractMethod {m : Metadata} {s : SourceModule} (h : contractModule m = .ok s)
    (ho : o ∈ m.operations) : ∃ c, contractMethod o = .ok c ∧ c.code <:+: s.code := by
  obtain ⟨_, -, h⟩ := bind_eq_ok.1 h
  obtain ⟨cs, hcs, h⟩ := bind_eq_ok.1 h
  obtain rfl := Except.ok.inj h
  obtain ⟨c, hc, hok⟩ := exists_of_mem_right (mapM_eq_ok.1 hcs).flip ho
  have hmethods := (infix_flatMap (f := fun c : ContractMethod => c.code) hc).trans
    (Code.infix_braces _)
  exact ⟨c, hok, hmethods.trans (List.suffix_append _ _).isInfix⟩

/-- A contract is printed where the names are accepted and all methods can be made. -/
theorem exists_contractModule_of_methods {m : Metadata} {ms : List ContractMethod}
    (hcheck : checkNames m = .ok ()) (hms : m.operations.mapM contractMethod = .ok ms) :
    ∃ s, contractModule m = .ok s := by
  unfold contractModule
  rw [hcheck, hms]
  exact ⟨_, rfl⟩

end Arguments

end Emit
end ApiContract
