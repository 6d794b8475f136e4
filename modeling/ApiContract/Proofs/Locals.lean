import ApiContract.Code.Token
import ApiContract.Proofs.Latest

/-!
# Names in the body of a function

**Input:** the statements of a body in their order, each with the names that it uses and the one
that it introduces.

A name stands for the value for which it was introduced last.  What a statement introduces is known
to the statements after it only.

**Results:**

* `mem_scopes_iff`: the names that a statement can use are those that the function begins with, and
  after them those that earlier statements have introduced;
* `latest?_owned`: a name that the function introduces hides all earlier meanings;
* `latest?_eq_own`: a name of the function itself keeps its meaning, unless a value has the same
  name.
-/

namespace ApiContract
namespace Code

/-- What a name stands for. -/
inductive Meaning (ν : Type)
  /-- What the function itself means by it. -/
  | own
  /-- A value that the function is about. -/
  | value (v : ν)
deriving DecidableEq

/-- A statement. -/
structure Statement (μ ν : Type) where
  /-- Names of the function itself that it uses. -/
  uses : List String := []
  /-- What else it mentions. -/
  mentions : List μ := []
  introduces : Option (String × Meaning ν) := none
  code : Code

variable {μ ν : Type} {names : Assoc String (Meaning ν)} {s : Statement μ ν}
  {ss : List (Statement μ ν)}

def introduced (ss : List (Statement μ ν)) : Assoc String (Meaning ν) :=
  ss.filterMap (·.introduces)

/-- Statements with the names that each of them can use. -/
def scopes (names : Assoc String (Meaning ν)) :
    List (Statement μ ν) → List (Statement μ ν × Assoc String (Meaning ν))
  | [] => []
  | s :: ss => (s, names) :: scopes (names ++ s.introduces.toList) ss

/-- A statement can use what the function begins with and what earlier statements introduce. -/
theorem mem_scopes_iff {known : Assoc String (Meaning ν)} :
    (s, known) ∈ scopes names ss ↔
      ∃ before after, ss = before ++ s :: after ∧ known = names ++ introduced before := by
  induction ss generalizing names with
  | nil => simp [scopes]
  | cons t ss ih =>
      rw [scopes, List.mem_cons, ih]
      constructor
      · rintro (he | ⟨before, after, rfl, rfl⟩)
        · obtain ⟨rfl, rfl⟩ := Prod.mk.inj he
          exact ⟨[], ss, rfl, (List.append_nil known).symm⟩
        · refine ⟨t :: before, after, rfl, ?_⟩
          cases ht : t.introduces <;> simp [introduced, ht]
      · rintro ⟨before, after, he, rfl⟩
        cases before with
        | nil =>
            obtain ⟨rfl, rfl⟩ := List.cons.inj he
            exact Or.inl (by simp [introduced])
        | cons u before =>
            obtain ⟨rfl, rfl⟩ := List.cons.inj he
            refine Or.inr ⟨before, after, rfl, ?_⟩
            cases ht : t.introduces <;> simp [introduced, ht]

theorem scopes_append (ss ts : List (Statement μ ν)) :
    scopes names (ss ++ ts) = scopes names ss ++ scopes (names ++ introduced ss) ts := by
  induction ss generalizing names with
  | nil => simp [scopes, introduced]
  | cons t ss ih =>
      rw [List.cons_append, scopes, scopes, ih, List.cons_append]
      cases ht : t.introduces <;> simp [introduced, ht]

/-- Where nothing is introduced, the same names are known to all statements. -/
theorem known_eq_of_mem_scopes {known : Assoc String (Meaning ν)}
    (hn : ∀ t ∈ ss, t.introduces = none) (h : (s, known) ∈ scopes names ss) :
    s ∈ ss ∧ known = names := by
  obtain ⟨before, after, rfl, rfl⟩ := mem_scopes_iff.1 h
  have hb : introduced before = [] :=
    List.filterMap_eq_nil_iff.2 fun t ht => hn t (List.mem_append_left _ ht)
  exact ⟨by simp, by rw [hb, List.append_nil]⟩

/-- A name of the function itself keeps its meaning, unless a value has the same name. -/
theorem latest?_eq_own {n : String} {known : Assoc String (Meaning ν)} (h : (n, .own) ∈ known)
    (hv : ∀ v, (n, .value v) ∉ known) : known.latest? n = some .own := by
  refine Assoc.latest?_eq_some_of_unique h fun w hw => ?_
  cases w with
  | own => rfl
  | value v => exact absurd hw (hv v)

/-- Names of the function itself. -/
def owned (own : List String) : Assoc String (Meaning ν) :=
  own.map fun n => (n, .own)

theorem map_fst_owned (own : List String) :
    (owned own : Assoc String (Meaning ν)).map Prod.fst = own := by
  rw [owned, List.map_map]
  exact List.map_id own

theorem owned_append (own more : List String) :
    (owned (own ++ more) : Assoc String (Meaning ν)) = owned own ++ owned more :=
  List.map_append

/-- A name that the function introduces hides all earlier meanings. -/
theorem latest?_owned {n : String} {own : List String} (hn : n ∈ own) :
    Assoc.latest? (names ++ owned own) n = some .own := by
  rw [Assoc.latest?_append_of_mem (by rwa [map_fst_owned])]
  refine latest?_eq_own (List.mem_map.2 ⟨n, hn, rfl⟩) fun v hv => ?_
  obtain ⟨m, -, he⟩ := List.mem_map.1 hv
  cases he

theorem latest?_of_not_mem_owned {n : String} {own : List String} (hn : n ∉ own) :
    Assoc.latest? (names ++ owned own) n = names.latest? n :=
  Assoc.latest?_append_of_not_mem (by rwa [map_fst_owned])

end Code
end ApiContract
