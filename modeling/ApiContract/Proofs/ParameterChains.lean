import ApiContract.Proofs.ParameterMerging
import ApiContract.Proofs.Steps

/-!
# Where pointers to parameters lead

**Input:** any document, and an entry of a list of parameters, which declares a parameter in place
or points to a shared entry.

A shared entry may again be a pointer.  So an entry leads to a declaration, to a pointer that has no
target, or in circles.

**Results:**

* `followParam_cases`: what following an entry gives in each of the three cases, since it is
  followed for one step more than there are shared entries;
* `followParam_exact`: it gives a parameter if and only if the entry leads to its declaration, and
  every failure names the pointer without a target or, where there is none, the entry itself;
  not one step can be spared.
-/

namespace ApiContract

theorem Document.after?_append (root s : String) : after? root (root ++ s) = some s := by
  rw [after?, String.toList_append, if_pos (List.isPrefixOf_iff_prefix.2 (List.prefix_append _ _)),
    ← String.length_toList, List.drop_left, String.ofList_toList]

namespace Resolve

open Document (ParameterEntry)
open Steps (Reaches Circles Way)

variable {d : Document} {e e' : ParameterEntry} {p : Document.Parameter} {pointer origin : String}
  {steps : Nat}

/-! ## Where entries lead -/

/-- The entry that an entry points to. -/
def entryAfter? (d : Document) : ParameterEntry → Option ParameterEntry
  | .inline _ => none
  | .ref pointer => d.parameter? pointer

/-- An entry leads to a pointer that has no target. -/
structure Dangles (d : Document) (e : ParameterEntry) (pointer : String) : Prop where
  reaches : Reaches (entryAfter? d) e (.ref pointer)
  noTarget : d.parameter? pointer = none

/-- Pointers to all shared entries. -/
def sharedPointers (d : Document) : List ParameterEntry :=
  d.components.parameters.map fun shared => .ref (Document.parameterRoot ++ shared.1)

theorem declares_iff : Declares d e p ↔ Reaches (entryAfter? d) e (.inline p) := by
  constructor
  · intro h
    induction h with
    | inline => exact .refl
    | ref hpointer _ ih => exact .head hpointer ih
  · intro h
    induction h using Relation.ReflTransGen.head_induction_on with
    | refl => exact .inline p
    | @head e _ hstep _ ih =>
        cases e with
        | inline => cases hstep
        | ref => exact .ref hstep ih

theorem Declares.endsIn (h : Declares d e p) : Steps.EndsIn (entryAfter? d) e (.inline p) :=
  ⟨declares_iff.1 h, rfl⟩

theorem Dangles.endsIn (h : Dangles d e pointer) :
    Steps.EndsIn (entryAfter? d) e (.ref pointer) :=
  ⟨h.reaches, h.noTarget⟩

/-- What points to something is a pointer to a shared entry. -/
theorem mem_sharedPointers (h : entryAfter? d e = some e') : e ∈ sharedPointers d := by
  cases e with
  | inline => cases h
  | ref pointer =>
      obtain ⟨name, hname, hlookup⟩ := Option.bind_eq_some_iff.1 h
      obtain ⟨shared, hshared, rfl⟩ := List.mem_map.1 (mem_keys_of_lookup hlookup)
      exact List.mem_map.2 ⟨shared, hshared, congrArg ParameterEntry.ref (append_of_after? hname)⟩

/-- Pointers to shared entries have targets. -/
theorem entryAfter?_of_mem (h : e ∈ sharedPointers d) : entryAfter? d e ≠ none := by
  obtain ⟨shared, hshared, rfl⟩ := List.mem_map.1 h
  rw [entryAfter?, Document.parameter?, Document.after?_append, Option.bind_some, ne_eq,
    Assoc.lookup_eq_none_iff_not_mem, not_not]
  exact List.mem_map_of_mem hshared

theorem nodup_sharedPointers (h : (d.components.parameters.map Prod.fst).Nodup) :
    (sharedPointers d).Nodup := by
  have hpointers : sharedPointers d = (d.components.parameters.map Prod.fst).map
      fun name => .ref (Document.parameterRoot ++ name) := by
    rw [sharedPointers, List.map_map]
    rfl
  rw [hpointers]
  refine h.map fun name name' heq => ?_
  have htext := congrArg String.toList (ParameterEntry.ref.inj heq)
  rw [String.toList_append, String.toList_append] at htext
  exact String.toList_injective (List.append_cancel_left htext)

/-! ## Following -/

/-- Following an entry for some steps more than a way has is following where it leads. -/
theorem followFrom_of_way {passed : List ParameterEntry} (h : Way (entryAfter? d) e passed e')
    (more : Nat) :
    followFrom d origin (passed.length + more) e = followFrom d origin more e' := by
  induction h with
  | here => rw [List.length_nil, Nat.zero_add]
  | @step e _ _ _ hstep _ ih =>
      cases e with
      | inline => cases hstep
      | ref pointer =>
          have htarget : d.parameter? pointer = some _ := hstep
          rw [List.length_cons, Nat.add_right_comm, followFrom, htarget]
          exact ih

/-- With no more steps than a way has its end is not found. -/
theorem followFrom_of_short_way {passed : List ParameterEntry}
    (h : Way (entryAfter? d) e passed e') (hle : steps ≤ passed.length) :
    followFrom d origin steps e = .error (.unresolvedRef origin) := by
  induction h generalizing steps with
  | here =>
      obtain rfl := Nat.le_zero.1 hle
      rfl
  | @step e _ _ _ hstep _ ih =>
      cases steps with
      | zero => rfl
      | succ steps =>
          cases e with
          | inline => cases hstep
          | ref pointer =>
              have htarget : d.parameter? pointer = some _ := hstep
              rw [followFrom, htarget]
              exact ih (Nat.le_of_succ_le_succ hle)

/-- Where an entry leads in circles nothing is found, however many steps are made. -/
theorem followFrom_of_circles (h : Circles (entryAfter? d) e) :
    followFrom d origin steps e = .error (.unresolvedRef origin) := by
  induction steps generalizing e with
  | zero => rfl
  | succ steps ih =>
      obtain ⟨e', hstep, hcircles⟩ := h.exists_step
      cases e with
      | inline => cases hstep
      | ref pointer =>
          have htarget : d.parameter? pointer = some e' := hstep
          rw [followFrom, htarget]
          exact ih hcircles

/-- An entry leads to a declaration, which is found, or to a pointer without a target, which is
named, or is a pointer that leads in circles and is named itself. -/
theorem followParam_cases (d : Document) (e : ParameterEntry) :
    (∃ p, Declares d e p ∧ followParam d e = .ok p) ∨
      (∃ pointer, Dangles d e pointer ∧ followParam d e = .error (.unresolvedRef pointer)) ∨
      ∃ pointer, e = .ref pointer ∧ Circles (entryAfter? d) e ∧
        followParam d e = .error (.unresolvedRef pointer) := by
  have hlength : (sharedPointers d).length = d.components.parameters.length := List.length_map _
  rcases Steps.exists_way_or_circles (fun _ _ => mem_sharedPointers (d := d)) e with
    ⟨passed, last, hway, hlast, hle⟩ | hcircles
  · -- One step is left where the way ends.
    obtain ⟨spare, hspare⟩ : ∃ spare,
        d.components.parameters.length + 1 = passed.length + (spare + 1) :=
      ⟨d.components.parameters.length - passed.length, by omega⟩
    unfold followParam
    rw [hspare, followFrom_of_way hway]
    cases last with
    | inline p => exact Or.inl ⟨p, declares_iff.2 hway.reaches, rfl⟩
    | ref pointer =>
        have htarget : d.parameter? pointer = none := hlast
        refine Or.inr (Or.inl ⟨pointer, ⟨hway.reaches, htarget⟩, ?_⟩)
        rw [followFrom, htarget]
  · cases e with
    | inline p =>
        obtain ⟨_, hstep, -⟩ := hcircles.exists_step
        cases hstep
    | ref pointer => exact Or.inr (Or.inr ⟨pointer, rfl, hcircles, followFrom_of_circles hcircles⟩)

/-- Following an entry gives a parameter if and only if the entry leads to its declaration.  If it
leads to a pointer without a target the failure names this pointer, and if it leads in circles the
failure names the entry; there is no other failure.  An entry from which all shared entries are
passed is followed to the end, for which every step is needed. -/
theorem followParam_exact (d : Document) (e : ParameterEntry) :
    (∀ p, followParam d e = .ok p ↔ Declares d e p) ∧
      (∀ error, followParam d e = .error error ↔
        (∃ pointer, Dangles d e pointer ∧ error = .unresolvedRef pointer) ∨
          ∃ pointer, e = .ref pointer ∧ Circles (entryAfter? d) e ∧
            error = .unresolvedRef pointer) ∧
      ∀ p, Declares d e p → (∀ shared ∈ sharedPointers d, Reaches (entryAfter? d) e shared) →
        followParam d e = .ok p ∧
          ((d.components.parameters.map Prod.fst).Nodup →
            ∀ origin, ∀ steps ≤ d.components.parameters.length,
              followFrom d origin steps e = .error (.unresolvedRef origin)) := by
  have hok : ∀ p, followParam d e = .ok p ↔ Declares d e p := by
    refine fun p => ⟨declares_of_followFrom, fun h => ?_⟩
    rcases followParam_cases d e with ⟨p', h', hp'⟩ | ⟨pointer, h', -⟩ | ⟨_, -, h', -⟩
    · rw [hp', h.unique h']
    · cases h.endsIn.unique h'.endsIn
    · exact absurd h' h.endsIn.not_circles
  refine ⟨hok, fun error => ⟨fun h => ?_, ?_⟩, fun p hp hall => ⟨(hok p).2 hp, fun hnames => ?_⟩⟩
  · rcases followParam_cases d e with ⟨p, -, hp⟩ | ⟨pointer, h', herror⟩ | ⟨pointer, he, h', herror⟩
    · cases h.symm.trans hp
    · exact Or.inl ⟨pointer, h', Except.error.inj (h.symm.trans herror)⟩
    · exact Or.inr ⟨pointer, he, h', Except.error.inj (h.symm.trans herror)⟩
  · rintro (⟨pointer, h, rfl⟩ | ⟨pointer, rfl, h, rfl⟩)
    · rcases followParam_cases d e with ⟨p, h', -⟩ | ⟨pointer', h', herror⟩ | ⟨_, -, h', -⟩
      · cases h.endsIn.unique h'.endsIn
      · rw [herror, ParameterEntry.ref.inj (h'.endsIn.unique h.endsIn)]
      · exact absurd h' h.endsIn.not_circles
    · exact followFrom_of_circles h
  · intro origin steps hle
    rcases Steps.exists_way_or_circles (fun _ _ => mem_sharedPointers) e with
      ⟨passed, last, hway, hlast, -⟩ | hcircles
    · have hlength := Steps.length_le_of_way hway hlast (nodup_sharedPointers hnames)
        fun shared hshared => ⟨hall shared hshared, entryAfter?_of_mem hshared⟩
      rw [sharedPointers, List.length_map] at hlength
      exact followFrom_of_short_way hway (Nat.le_trans hle hlength)
    · exact followFrom_of_circles hcircles

/-- Three shared entries, of which two stand for the next one. -/
def aliasDocument : Document where
  components := {
    parameters := [
      ("Limit", .inline (queryNumber "limit")),
      ("First", .ref "#/components/parameters/Second"),
      ("Second", .ref "#/components/parameters/Limit")] }

theorem followParam_exact_aliases :
    followParam aliasDocument (.ref "#/components/parameters/First") = .ok (queryNumber "limit") ∧
      (∀ origin, ∀ steps ≤ 3,
        followFrom aliasDocument origin steps (.ref "#/components/parameters/First") =
          .error (.unresolvedRef origin)) ∧
      followParam aliasDocument (.ref "#/components/parameters/Third") =
        .error (.unresolvedRef "#/components/parameters/Third") := by
  have hdeclares : Declares aliasDocument (.ref "#/components/parameters/First")
      (queryNumber "limit") := .ref rfl (.ref rfl (.ref rfl (.inline _)))
  have hall : ∀ shared ∈ sharedPointers aliasDocument, Reaches (entryAfter? aliasDocument)
      (.ref "#/components/parameters/First") shared := by
    have hshared : sharedPointers aliasDocument = [.ref "#/components/parameters/Limit",
        .ref "#/components/parameters/First", .ref "#/components/parameters/Second"] := rfl
    rw [hshared, List.forall_mem_cons, List.forall_mem_cons, List.forall_mem_singleton]
    exact ⟨.head rfl (.head rfl .refl), .refl, .head rfl .refl⟩
  obtain ⟨hfound, hspare⟩ := (followParam_exact aliasDocument _).2.2 _ hdeclares hall
  have hdangles : Dangles aliasDocument (.ref "#/components/parameters/Third")
      "#/components/parameters/Third" := ⟨.refl, rfl⟩
  exact ⟨hfound, hspare (by decide),
    ((followParam_exact aliasDocument _).2.1 _).2 (Or.inl ⟨_, hdangles, rfl⟩)⟩

end Resolve
end ApiContract
