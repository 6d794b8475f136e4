import ApiContract.Proofs.ChainEnds
import ApiContract.Proofs.ContractNames
import ApiContract.Proofs.FieldNames

/-!
# Types by recursion

**Input:** the table of a resolved document, and a descriptor that occurs in it or in an operation.

The type of a pointer is that of what it stands for, which may be an array whose elements are
pointers again.  Nothing but the table keeps this recursion from going on for ever: what has an
entry in the table of a resolved document is never an array without a name, so that no type is asked
for behind a second pointer.

**Results:**

* `Renders`: the code of a type by plain recursion, with nothing that bounds it;
* `namedEntries_of_resolve`: the entries of a resolved document have names where a type needs one;
* `types_render`: the recursion ends on every descriptor of a resolved document, with the type that
  `typeOf` gives; it fails exactly at pointers that stand for nothing, and these go in circles;
* `not_renders_endless`: in a table that is made by hand the recursion may not end.
-/

namespace ApiContract
namespace Emit

open Descriptor (parts)

/-! ## The recursion -/

/-- The code of a list. -/
def listCode (element : Code) : Code :=
  Code.flat "Vec" ++ Code.angles element

/-- The code of the type of a descriptor, or why there is none, with every pointer followed to what
it stands for, however often pointers are met. -/
inductive Renders (refs : RefTable) (scope : Scope) : Descriptor → Emitting Code → Prop
  | primitive (q : Primitive) :
      Renders refs scope (.primitive q) (.ok (Code.flat (primitiveType q)))
  | fileUpload : Renders refs scope .fileUpload (.ok (modelPath scope uploadModel))
  | file : Renders refs scope .file (.ok (CodeType.file.code scope))
  | namedArray (name : String) (e : Descriptor) :
      Renders refs scope (.array (some name) e) (.ok (modelPath scope name))
  | namedRecord (name : String) (ps : List Property) :
      Renders refs scope (.object (some name) ps) (.ok (modelPath scope name))
  | sum (name : String) (vs : List (String × List Descriptor)) :
      Renders refs scope (.oneOf name vs) (.ok (modelPath scope name))
  | dynamicMap : Renders refs scope (.object none []) (.ok (CodeType.dynamicMap.code scope))
  | namelessRecord (p : Property) (ps : List Property) :
      Renders refs scope (.object none (p :: ps)) (.error .namelessRecord)
  | list {e : Descriptor} {r : Emitting Code} (element : Renders refs scope e r) :
      Renders refs scope (.array none e) (r.map listCode)
  | pointer {p : String} {u : Descriptor} {r : Emitting Code}
      (found : refs.resolve? (.ref p) = some u) (behind : Renders refs scope u r) :
      Renders refs scope (.ref p) r
  | unresolvable {p : String} (found : refs.resolve? (.ref p) = none) :
      Renders refs scope (.ref p) (.error (.unresolvable (.ref p)))

/-- A descriptor is another one, or an array without a name whose elements are. -/
inductive ListsOf : Descriptor → Descriptor → Prop
  | here (t : Descriptor) : ListsOf t t
  | element {e t : Descriptor} (inside : ListsOf e t) : ListsOf (.array none e) t

/-- No entry of a table is an array without a name, or a record with properties and without a
name. -/
structure NamedEntries (refs : RefTable) : Prop where
  arrays : ∀ p e, refs.get? p ≠ some (.array none e)
  records : ∀ p q qs, refs.get? p ≠ some (.object none (q :: qs))

section Recursion

variable {refs : RefTable} {scope : Scope} {t u : Descriptor} {p : String} {r r' : Emitting Code}

/-- The recursion has at most one outcome. -/
theorem Renders.unique (h : Renders refs scope t r) (h' : Renders refs scope t r') : r = r' := by
  induction h generalizing r' with
  | list _ ih =>
      cases h' with
      | list element => rw [ih element]
  | pointer found _ ih =>
      cases h' with
      | pointer found' behind =>
          obtain rfl := Option.some.inj (found.symm.trans found')
          exact ih behind
      | unresolvable found' => simp [found] at found'
  | unresolvable found =>
      cases h' with
      | pointer found' => simp [found] at found'
      | unresolvable => rfl
  | _ => cases h'; rfl

/-- What stands behind a pointer is an entry. -/
theorem exists_entry_of_resolve? (h : refs.resolve? (.ref p) = some u) :
    ∃ q, refs.get? q = some u := by
  obtain ⟨ps, hc⟩ := RefTable.resolve?_eq_some_iff.1 h
  rcases hc.eq_or_entry with rfl | ⟨q, -, hq⟩
  · simpa [Descriptor.pointer?] using hc.pointer?_end
  · exact ⟨q, hq⟩

/-- Types of what is neither a pointer nor an array without a name need no recursion. -/
theorem renders_of_ne (hpointer : u.pointer? = none) (harray : ∀ e, u ≠ .array none e)
    (hops : Nat) :
    Renders refs scope u ((typeWithin refs hops u).map (CodeType.code scope)) := by
  cases u with
  | ref p => simp [Descriptor.pointer?] at hpointer
  | primitive q => rw [typeWithin]; exact .primitive q
  | fileUpload => rw [typeWithin]; exact .fileUpload
  | file => rw [typeWithin]; exact .file
  | oneOf name vs => rw [typeWithin]; exact .sum name vs
  | array name? e =>
      cases name? with
      | some name => rw [typeWithin]; exact .namedArray name e
      | none => exact absurd rfl (harray e)
  | object name? ps =>
      cases name? with
      | some name => rw [typeWithin]; exact .namedRecord name ps
      | none =>
          cases ps with
          | nil => rw [typeWithin]; exact .dynamicMap
          | cons p ps => rw [typeWithin]; exact .namelessRecord p ps

/-- Where entries have names, the recursion ends with what is computed within one pointer. -/
theorem renders_typeWithin (hn : NamedEntries refs) (hops : Nat) : (t : Descriptor) →
    Renders refs scope t ((typeWithin refs (hops + 1) t).map (CodeType.code scope))
  | .primitive q => renders_of_ne rfl (by simp) _
  | .fileUpload => renders_of_ne rfl (by simp) _
  | .file => renders_of_ne rfl (by simp) _
  | .oneOf name vs => renders_of_ne rfl (by simp) _
  | .object name? ps => renders_of_ne rfl (by simp) _
  | .array (some name) e => renders_of_ne rfl (by simp) _
  | .array none e => by
      have ih := renders_typeWithin hn hops e
      have hlist := Renders.list ih
      rw [typeWithin]
      cases he : typeWithin refs (hops + 1) e <;> rw [he] at hlist <;> exact hlist
  | .ref p => by
      rw [typeWithin]
      cases hu : refs.resolve? (.ref p) with
      | none =>
          simp only [target, hu]
          exact .unresolvable hu
      | some u =>
          simp only [target, hu]
          obtain ⟨q, hq⟩ := exists_entry_of_resolve? hu
          refine .pointer hu (renders_of_ne (pointer?_of_resolve? hu) ?_ hops)
          rintro e rfl
          exact hn.arrays q e hq

theorem renders_iff (hn : NamedEntries refs) :
    Renders refs scope t r ↔ r = (typeOf refs t).map (CodeType.code scope) := by
  have hrenders : Renders refs scope t ((typeOf refs t).map (CodeType.code scope)) :=
    renders_typeWithin hn refs.size t
  constructor
  · exact fun h => h.unique hrenders
  · rintro rfl
    exact hrenders

/-- Only an array without a name is a list of something else. -/
theorem eq_of_listsOf (h : ListsOf t u) (harray : ∀ e, t ≠ .array none e) : u = t := by
  cases h with
  | here => rfl
  | element => exact absurd rfl (harray _)

/-- Where entries have names, the recursion fails exactly at a pointer that stands for nothing, in
the end of arrays without a name. -/
theorem renders_error_iff (hn : NamedEntries refs) (h : Renders refs scope t r)
    (ht : ∀ q qs, ¬ ListsOf t (.object none (q :: qs))) {e : EmitError} :
    r = .error e ↔
      ∃ p, ListsOf t (.ref p) ∧ refs.resolve? (.ref p) = none ∧ e = .unresolvable (.ref p) := by
  have hleaf : ∀ {t : Descriptor} {c : Code} {e : EmitError}, t.pointer? = none →
      (∀ e, t ≠ .array none e) →
      ((.ok c : Emitting Code) = .error e ↔ ∃ p, ListsOf t (.ref p) ∧
        refs.resolve? (.ref p) = none ∧ e = .unresolvable (.ref p)) := by
    intro t c e hpointer harray
    refine iff_of_false (by simp) ?_
    rintro ⟨p, hp, -, -⟩
    rw [← eq_of_listsOf hp harray] at hpointer
    simp [Descriptor.pointer?] at hpointer
  induction h with
  | primitive => exact hleaf rfl (by simp)
  | fileUpload => exact hleaf rfl (by simp)
  | file => exact hleaf rfl (by simp)
  | namedArray => exact hleaf rfl (by simp)
  | namedRecord => exact hleaf rfl (by simp)
  | sum => exact hleaf rfl (by simp)
  | dynamicMap => exact hleaf rfl (by simp)
  | namelessRecord q qs => exact absurd (.here _) (ht q qs)
  | @list d r _ ih =>
      have hmap : r.map listCode = .error e ↔ r = .error e := by
        cases r <;> simp [Except.map]
      refine hmap.trans ((ih fun q qs hq => ht q qs (.element hq)).trans ⟨?_, ?_⟩)
      · rintro ⟨p, hp, hnone, he⟩
        exact ⟨p, .element hp, hnone, he⟩
      · rintro ⟨p, hp, hnone, he⟩
        cases hp with
        | element hp => exact ⟨p, hp, hnone, he⟩
  | @pointer p u r found behind ih =>
      obtain ⟨q, hq⟩ := exists_entry_of_resolve? found
      have harray : ∀ e, u ≠ .array none e := by
        rintro e rfl
        exact hn.arrays q e hq
      have hrecord : ∀ q qs, ¬ ListsOf u (.object none (q :: qs)) := by
        intro q' qs hu
        obtain rfl := eq_of_listsOf hu harray
        exact hn.records q q' qs hq
      refine (ih hrecord).trans ⟨?_, ?_⟩
      · rintro ⟨p', hp, -, -⟩
        have hpointer := pointer?_of_resolve? found
        rw [← eq_of_listsOf hp harray] at hpointer
        simp [Descriptor.pointer?] at hpointer
      · rintro ⟨p', hp, hnone, -⟩
        rw [eq_of_listsOf hp (by simp), found] at hnone
        cases hnone
  | @unresolvable p found =>
      constructor
      · intro he
        exact ⟨p, .here _, found, (Except.error.inj he).symm⟩
      · rintro ⟨p', hp, -, rfl⟩
        rw [eq_of_listsOf hp (by simp)]

end Recursion

/-! ## A table made by hand -/

/-- An entry that is a list of itself. -/
def endlessTable : RefTable :=
  RefTable.empty.insert "#/components/schemas/List" (.array none (.ref "#/components/schemas/List"))

/-- In a table with an array without a name the recursion may not end. -/
theorem not_renders_endless (scope : Scope) (r : Emitting Code) :
    ¬ Renders endlessTable scope (.ref "#/components/schemas/List") r := by
  have hlist : endlessTable.resolve? (.ref "#/components/schemas/List") =
      some (.array none (.ref "#/components/schemas/List")) := rfl
  -- No smallest derivation exists: each one contains another for the same pointer.
  suffices h : ∀ t r, Renders endlessTable scope t r →
      t ≠ .ref "#/components/schemas/List" ∧ t ≠ .array none (.ref "#/components/schemas/List") from
    fun hr => (h _ _ hr).1 rfl
  intro t r h
  induction h with
  | list _ ih =>
      refine ⟨by simp, fun he => ih.1 ?_⟩
      exact (Descriptor.array.inj he).2
  | pointer found _ ih =>
      refine ⟨fun he => ih.2 ?_, by simp⟩
      rw [he, hlist] at found
      exact (Option.some.inj found).symm
  | unresolvable found =>
      refine ⟨fun he => ?_, by simp⟩
      rw [he, hlist] at found
      cases found
  | _ => simp

end Emit

/-! ## Names where a type needs one -/

namespace Descriptor

/-- Every record inside a descriptor that has properties has a name. -/
def NamedRecords (t : Descriptor) : Prop :=
  ∀ u ∈ t.parts, ∀ p ps, u ≠ .object none (p :: ps)

section NamedRecords

variable {t u e : Descriptor} {name? : Option String} {ps : List Property}

theorem namedRecords_of_parts_eq (h : t.parts = [t]) (ht : ∀ p ps, t ≠ .object none (p :: ps)) :
    t.NamedRecords := by
  intro u hu
  rw [h] at hu
  obtain rfl := List.mem_singleton.1 hu
  exact ht

theorem namedRecords_array (he : e.NamedRecords) : (array name? e).NamedRecords := by
  intro u hu
  rw [parts] at hu
  rcases List.mem_cons.1 hu with rfl | hu
  · simp
  · exact he u hu

theorem namedRecords_object (hname : name? = none → ps = [])
    (hps : ∀ p ∈ ps, p.type.NamedRecords) : (object name? ps).NamedRecords := by
  intro u hu
  rw [parts, propertyParts_eq] at hu
  rcases List.mem_cons.1 hu with rfl | hu
  · rintro p ps' he
    obtain ⟨hnone, rfl⟩ := object.inj he
    cases hname hnone
  · obtain ⟨p, hp, hu⟩ := List.mem_flatMap.1 hu
    exact hps p hp u hu

theorem NamedRecords.part (h : t.NamedRecords) (hu : u ∈ t.parts) : u.NamedRecords :=
  fun v hv => h v (parts_subset t hu hv)

theorem NamedRecords.not_listsOf (h : t.NamedRecords) (p : Property) (ps : List Property) :
    ¬ Emit.ListsOf t (.object none (p :: ps)) := by
  intro hl
  generalize hu : object none (p :: ps) = u at hl
  induction hl with
  | here t =>
      subst hu
      exact h _ (mem_parts_self _) p ps rfl
  | element _ ih => exact ih (h.part (mem_parts_array (mem_parts_self _))) hu

end NamedRecords

end Descriptor

namespace Resolve

open Document (Schema)
open Descriptor (NamedRecords namedRecords_of_parts_eq namedRecords_array namedRecords_object)

section Documents

variable {d : Document} {namePrefix context name : String} {m : Metadata} {ws : List Warning}
  {s : Schema} {t : Descriptor}

theorem namedRecords_of_shapeOf? (h : shapeOf? s context = some t) : t.NamedRecords := by
  refine shape_induction (P := fun _ t => t.NamedRecords)
    (fun _ _ => namedRecords_of_parts_eq rfl (by simp)) (fun _ _ _ hu => ?_)
    (fun _ _ => namedRecords_array) (fun context ps => namedRecords_object fun hnone => ?_) h
  · rcases scalarOf?_cases hu with rfl | ⟨q, rfl⟩
    · exact namedRecords_of_parts_eq rfl (by simp)
    · exact namedRecords_of_parts_eq rfl (by simp)
  · simpa using hnone

/-- A schema that keeps its name is a pointer, a scalar, or an array or a record with this name. -/
theorem namedShape?_named (h : namedShape? s name = some t) :
    (∃ pointer, t = .ref pointer) ∨ scalarOf? s = some t ∨ (∃ e, t = .array (some name) e) ∨
      ∃ ps, t = .object (some name) ps := by
  unfold namedShape? at h
  split at h
  · rename_i hc
    rw [shapeOf?] at h
    cases hr : s.ref with
    | some pointer =>
        rw [hr] at h
        exact Or.inl ⟨pointer, (Option.some.inj h).symm⟩
    | none =>
        have hcomposition : s.isComposition = true := by simpa [hr] using hc
        rw [hr] at h
        simp [hcomposition] at h
  rename_i hc
  split at h
  · obtain ⟨_, e, -, rfl, -⟩ := arrayShape?_eq_some_iff.1 h
    exact Or.inr (Or.inr (Or.inl ⟨e, rfl⟩))
  rename_i harray
  split at h
  · obtain ⟨ps, -, rfl⟩ := Option.map_eq_some_iff.1 h
    exact Or.inr (Or.inr (Or.inr ⟨ps, rfl⟩))
  · rename_i hobject
    have hplain : s.ref = none ∧ s.isComposition = false := by simpa using hc
    rw [shapeOf?, hplain.1] at h
    simp only [hplain.2, harray, hobject, Bool.false_eq_true, if_false] at h
    split at h
    · rename_i u hu
      exact Or.inr (Or.inl (hu.trans h))
    · cases h

theorem namedRecords_of_expansion? {pointer : String} (h : expansion? d pointer = some t) :
    t.NamedRecords := by
  obtain ⟨s, name, -, -, hnamed⟩ := expansion?_eq_some_iff.1 h
  rcases namedShape?_cases hnamed with hs | ⟨it, e, rfl, he⟩ | ⟨ps, hps, rfl⟩
  · exact namedRecords_of_shapeOf? hs
  · exact namedRecords_array (namedRecords_of_shapeOf? he)
  · refine namedRecords_object (by simp) fun p hp => ?_
    obtain ⟨s', hs'⟩ := exists_shape_of_mem hps p hp
    exact namedRecords_of_shapeOf? hs'

/-- No entry of a resolved document is an array without a name, or a record with properties and
without a name. -/
theorem namedEntries_of_resolve (h : d.resolve namePrefix = .ok (m, ws)) :
    Emit.NamedEntries m.refs := by
  have hnamed : ∀ p u, m.refs.get? p = some u →
      ∃ s name, namedShape? s name = some u := by
    intro p u hu
    obtain ⟨s, name, -, -, hs⟩ := expansion?_eq_some_iff.1 ((settled_of_resolve h).get? hu)
    exact ⟨s, name, hs⟩
  refine ⟨fun p e hu => ?_, fun p q qs hu => ?_⟩
  all_goals
    obtain ⟨s, name, hs⟩ := hnamed p _ hu
    rcases namedShape?_named hs with ⟨_, he⟩ | hscalar | ⟨_, he⟩ | ⟨_, he⟩
    · cases he
    · rcases scalarOf?_cases hscalar with he | ⟨_, he⟩ <;> cases he
    · cases he
    · cases he

/-- What holds of expansions and schemas in place, of pointers, scalars and files, and of records of
scalars with a name, holds of everything in a resolved document that values are sent as. -/
theorem forall_descriptors {P : Descriptor → Prop} (h : d.resolve namePrefix = .ok (m, ws))
    (hentry : ∀ pointer t, expansion? d pointer = some t → P t)
    (hplace : ∀ s context t, shapeOf? s context = some t → P t)
    (hpointer : ∀ pointer, P (.ref pointer)) (hscalar : ∀ q, P (.primitive q)) (hfile : P .file)
    (hheaders : ∀ name (ps : List Property), (∀ p ∈ ps, ∃ q, p.type = .primitive q) →
      P (.object (some name) ps)) :
    ∀ t ∈ m.descriptors, P t := by
  intro t ht
  rcases List.mem_append.1 ht with ht | ht
  · obtain ⟨⟨p, u⟩, he, rfl⟩ := List.mem_map.1 ht
    exact hentry p u ((settled_of_resolve h).get? (RefTable.get?_of_mem_entries he))
  · obtain ⟨o, ho, ht⟩ := List.mem_flatMap.1 ht
    rcases List.mem_append.1 ht with hparam | ht
    · obtain ⟨p, hp, rfl⟩ := List.mem_map.1 hparam
      obtain ⟨q, hq⟩ := scalar_of_resolve h ho p hp
      exact hq ▸ hscalar q
    rcases List.mem_append.1 ht with hcontent | hmember
    · obtain ⟨b, hb, hcontent⟩ := List.mem_flatMap.1 hcontent
      obtain ⟨e, he, rfl⟩ := List.mem_map.1 hcontent
      obtain ⟨_, _, _, hr⟩ := exists_run_requestBody h ho (Option.mem_toList.1 hb)
      obtain ⟨pointer, hp⟩ := exists_ref_of_requestBody hr he
      exact hp ▸ hpointer pointer
    · obtain ⟨e, he, hmember⟩ := List.mem_flatMap.1 hmember
      obtain ⟨_, _, _, hr⟩ := exists_run_responseBody h ho
      obtain ⟨r, hdescribes⟩ := exists_describes_of_responseBody hr he
      exact hdescribes.forall_members (fun s => hplace s _) hfile (hheaders _) t hmember

theorem namedRecords_of_resolve (h : d.resolve namePrefix = .ok (m, ws)) :
    ∀ t ∈ m.descriptors, t.NamedRecords := by
  refine forall_descriptors h (fun _ _ => namedRecords_of_expansion?)
    (fun _ _ _ => namedRecords_of_shapeOf?) (fun _ => namedRecords_of_parts_eq rfl (by simp))
    (fun _ => namedRecords_of_parts_eq rfl (by simp)) (namedRecords_of_parts_eq rfl (by simp))
    fun name ps hps => namedRecords_object (by simp) fun p hp => ?_
  obtain ⟨q, hq⟩ := hps p hp
  rw [hq]
  exact namedRecords_of_parts_eq rfl (by simp)

end Documents

end Resolve

namespace Emit

section Documents

variable {d : Document} {namePrefix : String} {m : Metadata} {ws : List Warning} {t u : Descriptor}

/-- Lists of a descriptor have it inside. -/
theorem ListsOf.mem_parts (h : ListsOf t u) : u ∈ t.parts := by
  induction h with
  | here t => exact t.mem_parts_self
  | element _ ih => exact Descriptor.mem_parts_array ih

theorem ListsOf.mem_pointers {root : Descriptor} {p : String} (h : ListsOf t (.ref p))
    (ht : t ∈ root.parts) : p ∈ root.pointers :=
  List.mem_filterMap.2 ⟨.ref p, Descriptor.parts_subset root ht h.mem_parts, rfl⟩

/-- On everything that occurs in a resolved document, at any depth, the recursion for types ends,
and it ends with what `typeOf` gives.  There is no type if and only if the descriptor is, in the end
of arrays without a name, a pointer from which lookups do not end, and this is what the error says.
Such lookups go in circles: they never come to a pointer without an entry, and no record is without
the name that its type needs. -/
theorem types_render (h : d.resolve namePrefix = .ok (m, ws)) (scope : Scope)
    (ht : t ∈ m.descriptors.flatMap Descriptor.parts) :
    (∀ r, Renders m.refs scope t r ↔ r = (typeOf m.refs t).map (CodeType.code scope)) ∧
      (∀ e, typeOf m.refs t = .error e ↔
        ∃ p, ListsOf t (.ref p) ∧ (∀ u, ¬ m.refs.EndsIn (.ref p) u) ∧ e = .unresolvable (.ref p)) ∧
      (∀ p, ListsOf t (.ref p) → ¬ m.refs.Dangles (.ref p) ∧
        ((∀ u, ¬ m.refs.EndsIn (.ref p) u) → m.refs.Circles (.ref p))) ∧
      typeOf m.refs t ≠ .error .namelessRecord := by
  obtain ⟨root, hroot, ht⟩ := List.mem_flatMap.1 ht
  have hentries := Resolve.namedEntries_of_resolve h
  have hrecords := (Resolve.namedRecords_of_resolve h root hroot).part ht
  have hrender : ∀ r, Renders m.refs scope t r ↔ r = (typeOf m.refs t).map (CodeType.code scope) :=
    fun r => renders_iff hentries
  have herror : ∀ e, typeOf m.refs t = .error e ↔
      ∃ p, ListsOf t (.ref p) ∧ (∀ u, ¬ m.refs.EndsIn (.ref p) u) ∧ e = .unresolvable (.ref p) := by
    intro e
    have hmap : typeOf m.refs t = .error e ↔
        (typeOf m.refs t).map (CodeType.code scope) = .error e := by
      cases typeOf m.refs t <;> simp [Except.map]
    rw [hmap, renders_error_iff hentries ((hrender _).2 rfl) hrecords.not_listsOf]
    simp only [RefTable.resolve?_eq_none_iff_not_endsIn]
  have hdangles : ∀ p, ListsOf t (.ref p) → ¬ m.refs.Dangles (.ref p) := by
    intro p hp
    have hs := Resolve.settled_of_resolve h
    refine RefTable.not_dangles (fun q u hq r hr => hs.mem_keys hq hr) ?_
    intro q hq
    obtain rfl := List.mem_singleton.1 hq
    obtain ⟨u, hu⟩ := (Resolve.resolve_closed h).1 root hroot q (hp.mem_pointers ht)
    exact RefTable.mem_keys_of_get? hu
  refine ⟨hrender, herror, fun p hp => ⟨hdangles p hp, fun hend => ?_⟩, fun hnameless => ?_⟩
  · rcases RefTable.ends_or_dangles_or_circles m.refs (.ref p) with ⟨u, hu⟩ | hd | hc
    · exact absurd hu (hend u)
    · exact absurd hd (hdangles p hp)
    · exact hc
  · obtain ⟨p, -, -, he⟩ := (herror _).1 hnameless
    cases he

end Documents

end Emit

/-! ## Two names for each other -/

namespace Resolve

section Twins

abbrev leftPointer : String :=
  "#/components/schemas/Left"

/-- A pointer to nothing but a pointer back. -/
abbrev rightPointer : String :=
  "#/components/schemas/Right"

/-- A response with a list of what is only a name for itself. -/
def twinsResponse : Document.Response where
  description := none
  headers := []
  content := [("application/json",
    { schema := some { type := some "array", items := some { ref := some leftPointer } } })]

def listTwins : Document.Operation where
  operationId := some "listTwins"
  responses := [("200", twinsResponse)]

/-- A document in which two schemas are names for each other. -/
def twinsDocument : Document where
  paths := [("/twins", { get := some listTwins })]
  components := {
    schemas := [("Left", { ref := some rightPointer }), ("Right", { ref := some leftPointer })] }

def twinsProgress : Progress where
  table := ((RefTable.empty.mark leftPointer).insert rightPointer (.ref leftPointer)).insert
    leftPointer (.ref rightPointer)
  entered := [leftPointer, rightPointer]

def twinsVariant : Variant where
  name := "Ok"
  headers := none
  payload := .body (.array none (.ref leftPointer)) false

def twinsMetadata : Metadata where
  namePrefix := "Api"
  operations := [{
    path := "/twins"
    method := .get
    operationId := "listTwins"
    summary := none
    params := []
    requestBody := none
    responseBody := {
      className := "ListTwinsResponse"
      variants := [(.code 200, twinsVariant)] } }]
  refs := twinsProgress.table

theorem run_reference_left :
    (reference twinsDocument [] leftPointer).run {} = .ok (.ref leftPointer, twinsProgress) := by
  have hright : (reference twinsDocument [leftPointer] rightPointer).run
    { entered := [leftPointer] } =
      .ok (.ref rightPointer, {
        table := (RefTable.empty.mark leftPointer).insert rightPointer (.ref leftPointer)
        entered := [leftPointer, rightPointer] }) := by
    refine (run_reference_eq_ok (by decide) (by decide)).2
      ⟨rfl, { ref := some leftPointer }, "Right", .ref leftPointer, {
        table := RefTable.empty.mark leftPointer
        entered := [leftPointer, rightPointer] }, rfl, rfl, ?_, rfl⟩
    exact run_named_ref rfl (run_reference_of_mem_path (by decide) (by decide))
  refine (run_reference_eq_ok (by decide) (by decide)).2
    ⟨rfl, { ref := some rightPointer }, "Left", .ref rightPointer, {
      table := (RefTable.empty.mark leftPointer).insert rightPointer (.ref leftPointer)
      entered := [leftPointer, rightPointer] }, rfl, rfl, ?_, rfl⟩
  exact run_named_ref rfl hright

theorem run_responseBody_twins :
    (responseBody twinsDocument "listTwins" listTwins).run {} =
      .ok ({ className := "ListTwinsResponse", variants := [(.code 200, twinsVariant)] },
        twinsProgress) := by
  have hlist : (typeOf twinsDocument []
      { type := some "array", items := some { ref := some leftPointer } }
      "ListTwinsResponseOkBody").run {} = .ok (.array none (.ref leftPointer), twinsProgress) := by
    exact run_typeOf_array rfl rfl rfl rfl rfl (run_typeOf_ref rfl run_reference_left)
  have hbody : (jsonBody twinsDocument "listTwins" "ListTwinsResponse" (.code 200)
      { type := some "array", items := some { ref := some leftPointer } }).run {} =
        .ok (("Ok", .array none (.ref leftPointer)), twinsProgress) := by
    refine run_bind_eq_ok.2 ⟨"Ok", {}, rfl, ?_⟩
    exact run_bind_eq_ok.2 ⟨_, _, hlist, rfl⟩
  have hvariant : (responseVariant twinsDocument "listTwins" "ListTwinsResponse" (.code 200)
      twinsResponse).run {} = .ok (twinsVariant, twinsProgress) :=
    run_responseVariant_json rfl hbody (run_responseHeaders_none rfl)
  refine run_responseBody_of "ListTwins" rfl ?_
  exact run_responseVariants_cons rfl hvariant rfl rfl rfl

theorem resolve_twinsDocument : twinsDocument.resolve "Api" = .ok (twinsMetadata, []) := by
  have hes : operationsOf twinsDocument =
      [("/twins", .get, { get := some listTwins }, listTwins)] := rfl
  have hrun : (endpoint twinsDocument ("/twins", .get, { get := some listTwins }, listTwins)).run {}
      = .ok (_, twinsProgress) :=
    run_operation_of rfl rfl rfl rfl rfl rfl (run_requestBody_none rfl) run_responseBody_twins
  exact resolve_of_operation hes rfl hrun

end Twins

end Resolve

namespace Emit

theorem types_render_twins :
    Resolve.twinsDocument.resolve "Api" = .ok (Resolve.twinsMetadata, []) ∧
      Renders Resolve.twinsMetadata.refs .models (.array none (.ref Resolve.leftPointer))
        (.error (.unresolvable (.ref Resolve.leftPointer))) ∧
      Resolve.twinsMetadata.refs.Circles (.ref Resolve.leftPointer) ∧
      ¬ Resolve.twinsMetadata.refs.Dangles (.ref Resolve.leftPointer) := by
  have h := Resolve.resolve_twinsDocument
  have hmem : .array none (.ref Resolve.leftPointer) ∈
      Resolve.twinsMetadata.descriptors.flatMap Descriptor.parts := by decide
  obtain ⟨hrender, herror, hcircles, -⟩ := types_render h .models hmem
  have hlists : ListsOf (.array none (.ref Resolve.leftPointer)) (.ref Resolve.leftPointer) :=
    .element (.here _)
  have hnone : Resolve.twinsMetadata.refs.resolve? (.ref Resolve.leftPointer) = none := rfl
  have hend := RefTable.resolve?_eq_none_iff_not_endsIn.1 hnone
  have htype := (herror _).2 ⟨_, hlists, hend, rfl⟩
  obtain ⟨hdangles, hcircle⟩ := hcircles _ hlists
  exact ⟨h, (hrender _).2 (by rw [htype]; rfl), hcircle hend, hdangles⟩

end Emit
end ApiContract
