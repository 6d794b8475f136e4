import ApiContract.Emit.Models
import ApiContract.Proofs.Chains

/-!
# The types of fields

A field names the model of what its property stands for, unless the property is a pointer that is
marked: then its type is boxed.

**Results:**

* `typeOf_eq_model_iff`: the type of a descriptor is a model if what it stands for has the name of
  this model;
* `held?_fieldType`: a field holds a model by value if its property is not boxed and stands for
  something with the name of this model.
-/

namespace ApiContract
namespace Emit

/-- The name of the model that stands for a descriptor, if it is one. -/
def modelName? : Descriptor → Option String
  | .fileUpload => some uploadModel
  | t => t.name?

/-- The model that a value of a type holds without a box, a list or a map in between. -/
def CodeType.held? : CodeType → Option String
  | .model name => some name
  | .optional (.model name) => some name
  | _ => none

section Types

variable {refs : RefTable} {t u : Descriptor} {name : String} {hops : Nat}

theorem typeWithin_eq_model_iff (ht : t.pointer? = none) :
    typeWithin refs hops t = .ok (.model name) ↔ modelName? t = some name := by
  cases t with
  | ref p => simp [Descriptor.pointer?] at ht
  | primitive p => simp [typeWithin, modelName?, Descriptor.name?]
  | fileUpload => simp [typeWithin, modelName?]
  | file => simp [typeWithin, modelName?, Descriptor.name?]
  | oneOf n vs => simp [typeWithin, modelName?, Descriptor.name?]
  | array n? e =>
      cases n? with
      | some n => simp [typeWithin, modelName?, Descriptor.name?]
      | none =>
          rw [typeWithin]
          cases typeWithin refs hops e <;> simp [Except.map, modelName?, Descriptor.name?]
  | object n? ps =>
      cases n? with
      | some n => simp [typeWithin, modelName?, Descriptor.name?]
      | none =>
          rw [typeWithin]
          split <;> simp [modelName?, Descriptor.name?]

theorem typeWithin_ne_optional (ht : t.pointer? = none) (inner : CodeType) :
    typeWithin refs hops t ≠ .ok (.optional inner) := by
  cases t with
  | ref p => simp [Descriptor.pointer?] at ht
  | primitive p => simp [typeWithin]
  | fileUpload => simp [typeWithin]
  | file => simp [typeWithin]
  | oneOf n vs => simp [typeWithin]
  | array n? e =>
      cases n? with
      | some n => simp [typeWithin]
      | none =>
          rw [typeWithin]
          cases typeWithin refs hops e <;> simp [Except.map]
  | object n? ps =>
      cases n? with
      | some n => simp [typeWithin]
      | none =>
          rw [typeWithin]
          split <;> simp

theorem resolve?_of_pointer?_eq_none (ht : t.pointer? = none) : refs.resolve? t = some t :=
  RefTable.resolve?_eq_some_iff.2 ⟨[], .here ht⟩

theorem target_eq_ok : target refs t = .ok u ↔ refs.resolve? t = some u := by
  unfold target
  cases refs.resolve? t <;> simp

theorem pointer?_of_resolve? (h : refs.resolve? t = some u) : u.pointer? = none := by
  obtain ⟨ps, hc⟩ := RefTable.resolve?_eq_some_iff.1 h
  exact hc.pointer?_end

/-- The type of a descriptor is that of what it stands for, if that exists. -/
theorem typeOf_eq (refs : RefTable) (t : Descriptor) :
    (∃ u hops, refs.resolve? t = some u ∧ typeOf refs t = typeWithin refs hops u) ∨
      refs.resolve? t = none ∧ ∃ e, typeOf refs t = .error e := by
  cases hp : t.pointer? with
  | none => exact Or.inl ⟨t, refs.size + 1, resolve?_of_pointer?_eq_none hp, rfl⟩
  | some p =>
      obtain rfl : t = .ref p := by
        cases t <;> simp [Descriptor.pointer?] at hp
        rw [hp]
      cases hr : refs.resolve? (.ref p) with
      | none =>
          refine Or.inr ⟨rfl, .unresolvable (.ref p), ?_⟩
          rw [typeOf, typeWithin]
          simp only [target, hr]
      | some u =>
          refine Or.inl ⟨u, refs.size, rfl, ?_⟩
          rw [typeOf, typeWithin]
          simp only [target, hr]

/-- A type is a model if the descriptor stands for something with the name of this model. -/
theorem typeOf_eq_model_iff :
    typeOf refs t = .ok (.model name) ↔
      ∃ u, refs.resolve? t = some u ∧ modelName? u = some name := by
  rcases typeOf_eq refs t with ⟨u, hops, hu, he⟩ | ⟨hn, e, he⟩
  · rw [he, typeWithin_eq_model_iff (pointer?_of_resolve? hu), hu]
    constructor
    · intro hm
      exact ⟨u, rfl, hm⟩
    · rintro ⟨v, hv, hm⟩
      rwa [Option.some.inj hv]
  · rw [he, hn]
    simp

theorem typeOf_eq_scalar {q : Primitive} (h : refs.resolve? t = some (.primitive q)) :
    typeOf refs t = .ok (.scalar q) := by
  rcases typeOf_eq refs t with ⟨u, hops, hu, he⟩ | ⟨hn, -⟩
  · obtain rfl : u = .primitive q := Option.some.inj (hu.symm.trans h)
    rw [he, typeWithin]
  · rw [hn] at h
    cases h

theorem typeOf_ne_optional (inner : CodeType) : typeOf refs t ≠ .ok (.optional inner) := by
  rcases typeOf_eq refs t with ⟨u, hops, hu, he⟩ | ⟨-, e, he⟩
  · rw [he]
    exact typeWithin_ne_optional (pointer?_of_resolve? hu) inner
  · rw [he]
    simp

/-- A field holds a model if its property is not boxed and stands for something with the name of
this model. -/
theorem held?_fieldType {p : Property} {f : CodeType} (h : fieldType refs p = .ok f) :
    f.held? = some name ↔ closesCycle refs p.type = false ∧
      ∃ u, refs.resolve? p.type = some u ∧ modelName? u = some name := by
  rw [← typeOf_eq_model_iff]
  unfold fieldType at h
  cases ht : typeOf refs p.type with
  | error e =>
      rw [ht] at h
      cases h
  | ok t =>
      rw [ht] at h
      obtain rfl := Except.ok.inj h
      cases closesCycle refs p.type with
      | true => cases p.required <;> simp [CodeType.held?]
      | false =>
          cases p.required with
          | true =>
              cases t with
              | optional inner => exact absurd ht (typeOf_ne_optional inner)
              | _ => simp [CodeType.held?]
          | false =>
              cases t <;> simp [CodeType.held?]

end Types

end Emit
end ApiContract
