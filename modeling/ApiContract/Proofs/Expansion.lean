import ApiContract.Proofs.References
import ApiContract.Resolve.Schema

/-!
# What a schema describes by itself

A schema in place has one descriptor, whatever else has been resolved: pointers inside it stay
pointers.  This gives every pointer of a document its expansion, and the document a graph of its
own.

**Results:**

* `shapeOf?`, `namedShape?`: the descriptor of a schema in place, and of one that keeps its name;
* `shape_induction`: what holds of the descriptors of all schemas in place;
* `expansion?`: what the table has to say about a pointer;
* `Expandable`: nothing that a pointer leads to is without an expansion.
-/

namespace ApiContract
namespace Resolve

open Document (Schema)

mutual

/-- The descriptor of a schema in place, with pointers left as they are. -/
def shapeOf? (s : Schema) (context : String) : Option Descriptor :=
  match s.ref with
  | some pointer => some (.ref pointer)
  | none =>
    if s.isComposition then none
    else
      match scalarOf? s with
      | some t => some t
      | none =>
        if s.type = some "array" then arrayShape? none s context
        else if isObject s then
          (propertyShapes? s.required context s.properties).map (record none context)
        else none
termination_by (sizeOf s, 1)
decreasing_by
  · exact Prod.Lex.right _ (by omega)
  · exact Prod.Lex.left _ _ (sizeOf_properties_lt s)

/-- The descriptor of the array that a schema describes. -/
def arrayShape? (name? : Option String) (s : Schema) (context : String) : Option Descriptor :=
  match _h : s.items with
  | none => none
  | some it => (shapeOf? it (context ++ "Item")).map (.array name?)
termination_by (sizeOf s, 0)
decreasing_by
  exact Prod.Lex.left _ _ (sizeOf_items_lt _h)

/-- The properties of the object that a schema describes. -/
def propertyShapes? (required : List String) (context : String) :
    List (String × Schema) → Option (List Property)
  | [] => some []
  | (name, s) :: rest => do
    let type ← shapeOf? s (context ++ Naming.pascalCase name)
    let more ← propertyShapes? required context rest
    return { name, type, format := s.format, required := required.contains name } :: more
termination_by props => (sizeOf props, 0)
decreasing_by
  · exact Prod.Lex.left _ _ (by simp only [List.cons.sizeOf_spec, Prod.mk.sizeOf_spec]; omega)
  · exact Prod.Lex.left _ _ (by simp only [List.cons.sizeOf_spec, Prod.mk.sizeOf_spec]; omega)

end

/-- The descriptor of a schema that keeps its name. -/
def namedShape? (s : Schema) (name : String) : Option Descriptor :=
  if s.ref.isSome || s.isComposition then shapeOf? s name
  else if s.type = some "array" then arrayShape? (some name) s name
  else if isObject s then
    (propertyShapes? s.required name s.properties).map (record (some name) name)
  else shapeOf? s name

/-! ## Descriptors of schemas -/

section Shapes

variable {s : Schema} {t : Descriptor} {context name : String}

theorem arrayShape?_eq_some_iff {name? : Option String} :
    arrayShape? name? s context = some t ↔
      ∃ it e, s.items = some it ∧ t = .array name? e ∧ shapeOf? it (context ++ "Item") =
        some e := by
  rw [arrayShape?]
  split
  · rename_i hi
    simp [hi]
  · rename_i it hi
    constructor
    · intro h
      obtain ⟨e, he, rfl⟩ := Option.map_eq_some_iff.1 h
      exact ⟨it, e, hi, rfl, he⟩
    · rintro ⟨it', e, hi', rfl, he⟩
      obtain rfl := Option.some.inj (hi.symm.trans hi')
      simp [he]

theorem propertyShapes?_cons_eq_some_iff {required : List String} {rest : List (String × Schema)}
    {ps : List Property} :
    propertyShapes? required context ((name, s) :: rest) = some ps ↔
      ∃ t more, shapeOf? s (context ++ Naming.pascalCase name) = some t ∧
        propertyShapes? required context rest = some more ∧
        ps = { name, type := t, format := s.format, required := required.contains name } ::
          more := by
  rw [propertyShapes?]
  simp only [Option.bind_eq_bind, Option.bind_eq_some_iff, Option.pure_def, Option.some.injEq]
  constructor
  · rintro ⟨t, ht, more, hmore, rfl⟩
    exact ⟨t, more, ht, hmore, rfl⟩
  · rintro ⟨t, more, ht, hmore, rfl⟩
    exact ⟨t, ht, more, hmore, rfl⟩

/-- Keywords name a received file or a scalar. -/
theorem scalarOf?_cases (h : scalarOf? s = some t) : t = .fileUpload ∨ ∃ q, t = .primitive q := by
  unfold scalarOf? at h
  split at h
  · exact Or.inr ⟨_, (Option.some.inj h).symm⟩
  split at h
  · exact Or.inr ⟨_, (Option.some.inj h).symm⟩
  split at h
  · rw [← Option.some.inj h]
    split
    · exact Or.inl rfl
    · exact Or.inr ⟨_, rfl⟩
  split at h
  · exact Or.inr ⟨_, (Option.some.inj h).symm⟩
  · cases h

/-- Every property has the descriptor of a schema, whose context goes on with its name. -/
theorem exists_shape_of_mem {required : List String} {props : List (String × Schema)}
    {ps : List Property} (h : propertyShapes? required context props = some ps) :
    ∀ p ∈ ps, ∃ s, shapeOf? s (context ++ Naming.pascalCase p.name) = some p.type := by
  induction props generalizing ps with
  | nil =>
      rw [propertyShapes?] at h
      obtain rfl := Option.some.inj h
      simp
  | cons e rest ih =>
      obtain ⟨t, more, ht, hmore, rfl⟩ := propertyShapes?_cons_eq_some_iff.1 h
      exact List.forall_mem_cons.2 ⟨⟨e.2, ht⟩, ih hmore⟩

/-- A schema in place is a pointer, a scalar, an array or a record. -/
theorem shapeOf?_cases (h : shapeOf? s context = some t) :
    (∃ pointer, s.ref = some pointer ∧ t = .ref pointer) ∨
      (s.ref = none ∧ s.isComposition = false ∧ scalarOf? s = some t) ∨
      (∃ it e, s.items = some it ∧ t = .array none e ∧ shapeOf? it (context ++ "Item") = some e) ∨
      ∃ ps, propertyShapes? s.required context s.properties = some ps ∧
        t = record none context ps := by
  rw [shapeOf?] at h
  split at h
  · rename_i pointer hr
    exact Or.inl ⟨pointer, hr, (Option.some.inj h).symm⟩
  rename_i hr
  split at h
  · cases h
  rename_i hc
  split at h
  · rename_i u hu
    obtain rfl := Option.some.inj h
    exact Or.inr (Or.inl ⟨hr, by simpa using hc, hu⟩)
  split at h
  · exact Or.inr (Or.inr (Or.inl (arrayShape?_eq_some_iff.1 h)))
  split at h
  · obtain ⟨ps, hps, rfl⟩ := Option.map_eq_some_iff.1 h
    exact Or.inr (Or.inr (Or.inr ⟨ps, hps, rfl⟩))
  · cases h

/-- A schema that keeps its name gives it to an array or a record. -/
theorem namedShape?_cases (h : namedShape? s name = some t) :
    shapeOf? s name = some t ∨
      (∃ it e, t = .array (some name) e ∧ shapeOf? it (name ++ "Item") = some e) ∨
      ∃ ps, propertyShapes? s.required name s.properties = some ps ∧
        t = record (some name) name ps := by
  unfold namedShape? at h
  split at h
  · exact Or.inl h
  split at h
  · obtain ⟨it, e, -, ht, he⟩ := arrayShape?_eq_some_iff.1 h
    exact Or.inr (Or.inl ⟨it, e, ht, he⟩)
  split at h
  · obtain ⟨ps, hps, rfl⟩ := Option.map_eq_some_iff.1 h
    exact Or.inr (Or.inr ⟨ps, hps, rfl⟩)
  · exact Or.inl h

/-- What holds of pointers and scalars, and of an array or a record if it holds of what is in it,
holds of the descriptor of every schema in place. -/
theorem shape_induction {P : String → Descriptor → Prop}
    (hpointer : ∀ context pointer, P context (.ref pointer))
    (hscalar : ∀ context s t, scalarOf? s = some t → P context t)
    (harray : ∀ context e, P (context ++ "Item") e → P context (.array none e))
    (hrecord : ∀ context ps, (∀ p ∈ ps, P (context ++ Naming.pascalCase p.name) p.type) →
      P context (record none context ps))
    (h : shapeOf? s context = some t) : P context t := by
  suffices hall : (∀ s context t, shapeOf? s context = some t → P context t) ∧
      (∀ required context props ps, propertyShapes? required context props = some ps →
        ∀ p ∈ ps, P (context ++ Naming.pascalCase p.name) p.type) ∧
      (∀ name? s context t, arrayShape? name? s context = some t →
        ∃ e, t = .array name? e ∧ P (context ++ "Item") e) from hall.1 s context t h
  apply shapeOf?.mutual_induct
  -- In place: a pointer, a composition, a scalar, an array, an object, an unknown type.
  · intro s context pointer hr t ht
    rw [shapeOf?, hr] at ht
    cases ht
    exact hpointer context pointer
  · intro s context hr hc t ht
    rw [shapeOf?, hr] at ht
    simp [hc] at ht
  · intro s context hr hc u hu t ht
    rw [shapeOf?, hr] at ht
    simp only [hc, hu, Bool.false_eq_true, if_false] at ht
    cases ht
    exact hscalar context s u hu
  · intro s context hr hc hu ha ih t ht
    rw [shapeOf?, hr] at ht
    simp only [hc, hu, ha, Bool.false_eq_true, if_false, if_true] at ht
    obtain ⟨e, rfl, he⟩ := ih t ht
    exact harray context e he
  · intro s context hr hc hu ha ho ih t ht
    rw [shapeOf?, hr] at ht
    simp only [hc, hu, ha, ho, Bool.false_eq_true, if_false, if_true] at ht
    obtain ⟨ps, hps, rfl⟩ := Option.map_eq_some_iff.1 ht
    exact hrecord context ps (ih ps hps)
  · intro s context hr hc hu ha ho t ht
    rw [shapeOf?, hr] at ht
    simp [hc, hu, ha, ho] at ht
  -- Properties: none, or one and the others.
  · intro required context ps hps
    rw [propertyShapes?] at hps
    cases hps
    simp
  · intro required context name s rest ihs ihrest ps hps
    obtain ⟨t, more, ht, hmore, rfl⟩ := propertyShapes?_cons_eq_some_iff.1 hps
    exact List.forall_mem_cons.2 ⟨ihs t ht, ihrest more hmore⟩
  -- An array: without items, or with.
  · intro name? s context hi t ht
    obtain ⟨it, -, hi', -⟩ := arrayShape?_eq_some_iff.1 ht
    rw [hi] at hi'
    cases hi'
  · intro name? s context it hi ih t ht
    obtain ⟨it', e, hi', rfl, he⟩ := arrayShape?_eq_some_iff.1 ht
    obtain rfl := Option.some.inj (hi.symm.trans hi')
    exact ⟨e, rfl, ih e he⟩

end Shapes

/-- The descriptor of the schema behind a pointer. -/
def expansion? (d : Document) (pointer : String) : Option Descriptor := do
  let s ← d.schema? pointer
  let name ← Naming.typeName? (Naming.simpleName pointer)
  namedShape? s name

/-! ## The graph of a document -/

/-- A pointer refers to those inside its expansion. -/
def Refers (d : Document) (p q : String) : Prop :=
  ∃ u, expansion? d p = some u ∧ q ∈ u.pointers

/-- There is a path between two pointers. -/
abbrev Leads (d : Document) : String → String → Prop :=
  Relation.ReflTransGen (Refers d)

/-- Everything that a pointer leads to has an expansion. -/
def Expandable (d : Document) (p : String) : Prop :=
  ∀ q, Leads d p q → ∃ u, expansion? d q = some u

/-- A pointer has an expansion if its schema exists, its name can be used and the schema describes
something. -/
theorem expansion?_eq_some_iff {d : Document} {pointer : String} {u : Descriptor} :
    expansion? d pointer = some u ↔
      ∃ s name, d.schema? pointer = some s ∧
        Naming.typeName? (Naming.simpleName pointer) = some name ∧ namedShape? s name = some u := by
  simp [expansion?, Option.bind_eq_some_iff]

theorem schema?_of_expansion? {d : Document} {pointer : String} {u : Descriptor}
    (h : expansion? d pointer = some u) : ∃ s, d.schema? pointer = some s := by
  obtain ⟨s, _, hs, -, -⟩ := expansion?_eq_some_iff.1 h
  exact ⟨s, hs⟩

namespace Expandable

variable {d : Document} {p q : String}

theorem expansion? (h : Expandable d p) : ∃ u, expansion? d p = some u :=
  h p .refl

theorem refers (h : Expandable d p) (hr : Refers d p q) : Expandable d q :=
  fun r hl => h r (.head hr hl)

end Expandable

/-- The pointers inside a record are those of its properties. -/
@[simp] theorem pointers_record (name? : Option String) (context : String) (ps : List Property) :
    (record name? context ps).pointers = ps.flatMap fun p => p.type.pointers := by
  simp [record]

/-- A scalar has no pointers. -/
theorem pointers_scalarOf? {s : Schema} {t : Descriptor} (h : scalarOf? s = some t) :
    t.pointers = [] := by
  rcases scalarOf?_cases h with rfl | ⟨q, rfl⟩ <;> rfl

end Resolve
end ApiContract
