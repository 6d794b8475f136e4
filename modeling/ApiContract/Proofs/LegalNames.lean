import ApiContract.Proofs.Emission
import ApiContract.Proofs.Models
import ApiContract.Proofs.Requests
import ApiContract.Proofs.TypeNames

/-!
# The names of resolved documents

**Input:** a document whose schemas, properties, parameters, headers and operations have any names.

A name is put together from the name of a schema or an operation and of texts that may follow it, so
it is legal at any depth.  The check of names, which stands before every emitter, therefore has
nothing to find.

**Results:**

* `checkNames_eq_ok_iff`: what the check of names accepts;
* `hasLegalNames_of_shapeOf?`, `hasLegalNames_of_expansion?`: the names inside a schema, in place
  and behind a pointer;
* `legalNames_of_resolve`: all names of a resolved document are legal.
-/

namespace ApiContract

open Naming (Legal Follows)

/-! ## Names at any depth -/

namespace Descriptor

/-- The names that a descriptor brings itself: its own one, and those of its variants. -/
def ownNames : Descriptor → List String
  | .oneOf name vs => name :: vs.map Prod.fst
  | t => t.name?.toList

/-- The names that descriptors bring themselves. -/
def namesOf (ts : List Descriptor) : List String :=
  ts.flatMap ownNames

/-- The names of a descriptor and of everything inside it. -/
def names (t : Descriptor) : List String :=
  namesOf t.parts

/-- All names of a descriptor, at any depth, are legal. -/
def HasLegalNames (t : Descriptor) : Prop :=
  ∀ n ∈ t.names, Legal n

section Names

variable {name : String} {name? : Option String} {e t : Descriptor}
  {ps : List (PropertyOf Descriptor)} {vs : List (String × List Descriptor)}

theorem namesOf_propertyParts (ps : List (PropertyOf Descriptor)) :
    namesOf (propertyParts ps) = ps.flatMap fun p => p.type.names := by
  induction ps with
  | nil => rfl
  | cons p ps ih =>
      obtain ⟨n, t, f, r⟩ := p
      rw [propertyParts, namesOf, List.flatMap_append, List.flatMap_cons]
      exact congrArg (t.names ++ ·) ih

theorem namesOf_memberParts (ms : List Descriptor) :
    namesOf (memberParts ms) = ms.flatMap names := by
  induction ms with
  | nil => rfl
  | cons m ms ih =>
      rw [memberParts, namesOf, List.flatMap_append, List.flatMap_cons]
      exact congrArg (m.names ++ ·) ih

theorem namesOf_variantParts (vs : List (String × List Descriptor)) :
    namesOf (variantParts vs) = vs.flatMap fun v => v.2.flatMap names := by
  induction vs with
  | nil => rfl
  | cons v vs ih =>
      obtain ⟨tag, ms⟩ := v
      rw [variantParts, namesOf, List.flatMap_append, List.flatMap_cons, ← namesOf_memberParts]
      exact congrArg (namesOf (memberParts ms) ++ ·) ih

/-- What has neither a name nor anything inside it has legal names. -/
theorem hasLegalNames_of_names_eq_nil (h : t.names = []) : t.HasLegalNames := by
  intro n hn
  rw [h] at hn
  cases hn

theorem hasLegalNames_ref (pointer : String) : (ref pointer).HasLegalNames :=
  hasLegalNames_of_names_eq_nil rfl

theorem hasLegalNames_primitive (q : Primitive) : (primitive q).HasLegalNames :=
  hasLegalNames_of_names_eq_nil rfl

theorem hasLegalNames_file : file.HasLegalNames :=
  hasLegalNames_of_names_eq_nil rfl

theorem hasLegalNames_array :
    (array name? e).HasLegalNames ↔ (∀ n ∈ name?, Legal n) ∧ e.HasLegalNames := by
  have hnames : (array name? e).names = name?.toList ++ e.names := rfl
  rw [HasLegalNames, hnames, List.forall_mem_append]
  simp only [Option.mem_toList, HasLegalNames, Option.mem_def]

theorem hasLegalNames_object :
    (object name? ps).HasLegalNames ↔
      (∀ n ∈ name?, Legal n) ∧ ∀ p ∈ ps, p.type.HasLegalNames := by
  have hnames : (object name? ps).names = name?.toList ++ ps.flatMap fun p => p.type.names :=
    congrArg (name?.toList ++ ·) (namesOf_propertyParts ps)
  rw [HasLegalNames, hnames, List.forall_mem_append, List.forall_mem_flatMap]
  simp only [Option.mem_toList, HasLegalNames, Option.mem_def]

theorem hasLegalNames_oneOf :
    (oneOf name vs).HasLegalNames ↔
      Legal name ∧ ∀ v ∈ vs, Legal v.1 ∧ ∀ u ∈ v.2, u.HasLegalNames := by
  have hnames : (oneOf name vs).names =
      name :: vs.map Prod.fst ++ vs.flatMap fun v => v.2.flatMap names :=
    congrArg (name :: vs.map Prod.fst ++ ·) (namesOf_variantParts vs)
  rw [HasLegalNames, hnames, List.forall_mem_append, List.forall_mem_cons, List.forall_mem_map,
    List.forall_mem_flatMap, and_assoc, ← forall₂_and]
  simp only [List.forall_mem_flatMap, HasLegalNames]

end Names

end Descriptor

/-! ## The check of names -/

namespace Emit

section Check

open Descriptor (hasLegalNames_of_names_eq_nil hasLegalNames_array hasLegalNames_object
  hasLegalNames_oneOf)

theorem checkName_eq_ok_iff {kind name : String} : checkName kind name = .ok () ↔ Legal name := by
  rw [← Naming.isTypeIdent_iff]
  unfold checkName
  split <;> simp_all

theorem checkTypeName?_eq_ok_iff {name? : Option String} :
    checkTypeName? name? = .ok () ↔ ∀ n ∈ name?, Legal n := by
  cases name? with
  | none => simp [checkTypeName?]
  | some name => simpa [checkTypeName?] using checkName_eq_ok_iff

mutual

/-- The check goes through all names of a descriptor. -/
theorem checkTypeNames_eq_ok_iff :
    (t : Descriptor) → (checkTypeNames t = .ok () ↔ t.HasLegalNames)
  | .primitive _ => iff_of_true rfl (hasLegalNames_of_names_eq_nil rfl)
  | .fileUpload => iff_of_true rfl (hasLegalNames_of_names_eq_nil rfl)
  | .file => iff_of_true rfl (hasLegalNames_of_names_eq_nil rfl)
  | .ref _ => iff_of_true rfl (hasLegalNames_of_names_eq_nil rfl)
  | .array name? e => by
      have ih := checkTypeNames_eq_ok_iff e
      rw [checkTypeNames, andCheck_eq_ok_iff, checkTypeName?_eq_ok_iff, ih, hasLegalNames_array]
  | .object name? ps => by
      have ih := checkProperties_eq_ok_iff ps
      rw [checkTypeNames, andCheck_eq_ok_iff, checkTypeName?_eq_ok_iff, ih, hasLegalNames_object]
  | .oneOf name vs => by
      have ih := checkVariants_eq_ok_iff vs
      rw [checkTypeNames, andCheck_eq_ok_iff, checkName_eq_ok_iff, ih, hasLegalNames_oneOf]

theorem checkProperties_eq_ok_iff : (ps : List (PropertyOf Descriptor)) →
    (checkProperties ps = .ok () ↔ ∀ p ∈ ps, p.type.HasLegalNames)
  | [] => iff_of_true rfl (by simp)
  | ⟨_, t, _, _⟩ :: ps => by
      have iht := checkTypeNames_eq_ok_iff t
      have ihps := checkProperties_eq_ok_iff ps
      rw [checkProperties, andCheck_eq_ok_iff, iht, ihps, List.forall_mem_cons]

theorem checkVariants_eq_ok_iff : (vs : List (String × List Descriptor)) →
    (checkVariants vs = .ok () ↔ ∀ v ∈ vs, Legal v.1 ∧ ∀ u ∈ v.2, u.HasLegalNames)
  | [] => iff_of_true rfl (by simp)
  | (tag, ms) :: vs => by
      have ihms := checkMembers_eq_ok_iff ms
      have ihvs := checkVariants_eq_ok_iff vs
      rw [checkVariants, andCheck_eq_ok_iff, andCheck_eq_ok_iff, checkName_eq_ok_iff, ihms, ihvs,
        List.forall_mem_cons, and_assoc]

theorem checkMembers_eq_ok_iff : (ms : List Descriptor) →
    (checkMembers ms = .ok () ↔ ∀ u ∈ ms, u.HasLegalNames)
  | [] => iff_of_true rfl (by simp)
  | m :: ms => by
      have ihm := checkTypeNames_eq_ok_iff m
      have ihms := checkMembers_eq_ok_iff ms
      rw [checkMembers, andCheck_eq_ok_iff, ihm, ihms, List.forall_mem_cons]

end

/-- The check accepts metadata if the prefix and all names at any depth are legal. -/
theorem checkNames_eq_ok_iff {m : Metadata} :
    checkNames m = .ok () ↔ Legal m.namePrefix ∧ ∀ t ∈ roots m, t.HasLegalNames := by
  rw [checkNames, andCheck_eq_ok_iff, checkName_eq_ok_iff, forM_eq_ok_iff]
  exact and_congr_right fun _ => forall₂_congr fun t _ => checkTypeNames_eq_ok_iff t

end Check

end Emit

/-! ## Schemas -/

namespace Resolve

open Document (Schema)
open Descriptor (hasLegalNames_ref hasLegalNames_primitive hasLegalNames_file hasLegalNames_array
  hasLegalNames_object hasLegalNames_oneOf hasLegalNames_of_names_eq_nil)

section Schemas

variable {s : Schema} {context name : String} {name? : Option String} {t : Descriptor}

/-- The fixed texts that the names of types end in. -/
def endings : List String :=
  ["Item", "Body", "Headers", "Request", "Response"]

theorem follows_ending {ending : String} (h : ending ∈ endings) : Follows ending := by
  have hhead : ∀ s ∈ endings, s.toList.head?.all (fun c => !c.isLower) = true := by decide
  have hall : ∀ s ∈ endings, s.toList.all Naming.isIdentChar = true := by decide
  exact Naming.follows_of_all (hhead ending h) (hall ending h)

theorem hasLegalNames_of_scalarOf? (h : scalarOf? s = some t) : t.HasLegalNames := by
  rcases scalarOf?_cases h with rfl | ⟨q, rfl⟩
  · exact hasLegalNames_of_names_eq_nil rfl
  · exact hasLegalNames_primitive q

theorem hasLegalNames_record {ps : List Property} (hname : ∀ n ∈ name?, Legal n)
    (hcontext : Legal context) (hps : ∀ p ∈ ps, p.type.HasLegalNames) :
    (record name? context ps).HasLegalNames := by
  refine hasLegalNames_object.2 ⟨fun n hn => ?_, hps⟩
  rcases Option.or_eq_some_iff.1 hn with hn | ⟨-, hn⟩
  · exact hname n hn
  · split at hn
    · cases hn
    · cases hn
      exact hcontext

/-- In a context that is a legal name a schema in place gives legal names only. -/
theorem hasLegalNames_of_shapeOf? (hcontext : Legal context) (h : shapeOf? s context = some t) :
    t.HasLegalNames := by
  refine shape_induction (P := fun context t => Legal context → t.HasLegalNames)
    (fun _ pointer _ => hasLegalNames_ref pointer) (fun _ _ _ hu _ => hasLegalNames_of_scalarOf? hu)
    (fun context e he hcontext => ?_) (fun context ps hps hcontext => ?_) h hcontext
  · exact hasLegalNames_array.2 ⟨by simp, he (hcontext.append (follows_ending (by decide)))⟩
  · exact hasLegalNames_record (by simp) hcontext fun p hp =>
      hps p hp (hcontext.append (Naming.follows_pascalCase p.name))

/-- A schema that keeps a legal name gives legal names only. -/
theorem hasLegalNames_of_namedShape? (hname : Legal name) (h : namedShape? s name = some t) :
    t.HasLegalNames := by
  have hself : ∀ n ∈ some name, Legal n := by
    rintro n ⟨⟩
    exact hname
  rcases namedShape?_cases h with h | ⟨it, e, rfl, he⟩ | ⟨ps, hps, rfl⟩
  · exact hasLegalNames_of_shapeOf? hname h
  · exact hasLegalNames_array.2
      ⟨hself, hasLegalNames_of_shapeOf? (hname.append (follows_ending (by decide))) he⟩
  · refine hasLegalNames_record hself hname fun p hp => ?_
    obtain ⟨s', hs'⟩ := exists_shape_of_mem hps p hp
    exact hasLegalNames_of_shapeOf? (hname.append (Naming.follows_pascalCase p.name)) hs'

/-- What a pointer stands for has legal names only, whatever the pointer and the properties are
called. -/
theorem hasLegalNames_of_expansion? {d : Document} {pointer : String}
    (h : expansion? d pointer = some t) : t.HasLegalNames := by
  obtain ⟨s, name, -, hname, hs⟩ := expansion?_eq_some_iff.1 h
  exact hasLegalNames_of_namedShape? (Naming.legal_of_typeName? hname) hs

end Schemas

/-! ## Responses -/

/-- The name of a variant is legal by itself and behind the name of the responses. -/
structure NamesVariant (name : String) : Prop where
  legal : Legal name
  follows : Follows name

section Responses

variable {d : Document} {operationId className : String} {status : Status} {σ σ' : Progress}

theorem namesVariant_of_typeName? {raw name : String} (h : Naming.typeName? raw = some name) :
    NamesVariant name :=
  ⟨Naming.legal_of_typeName? h, Naming.follows_of_typeName? h⟩

theorem namesVariant_file : NamesVariant "File" := by
  have hname : Naming.typeName? "File" = some "File" := rfl
  exact namesVariant_of_typeName? hname

theorem namesVariant_of_statusName? {name : String} (h : statusName? status = some name) :
    NamesVariant name := by
  have hself : Naming.typeName? name = some name := by
    unfold statusName? at h
    split at h <;> cases h <;> rfl
  exact namesVariant_of_typeName? hself

/-- A JSON response is named after its schema or its status. -/
theorem namesVariant_of_jsonBody {s : Schema} {name : String} {t : Descriptor}
    (h : (jsonBody d operationId className status s).run σ = .ok ((name, t), σ')) :
    NamesVariant name := by
  rcases run_jsonBody_cases h with ⟨_, -, -, -, htype | hstatus⟩ | ⟨-, hstatus, -⟩
  · exact namesVariant_of_typeName? htype
  · exact namesVariant_of_statusName? hstatus
  · exact namesVariant_of_statusName? hstatus

theorem namesVariant_of_responseVariant {r : Document.Response} {v : Variant}
    (h : (responseVariant d operationId className status r).run σ = .ok (v, σ')) :
    NamesVariant v.name := by
  obtain ⟨σ₁, -, ⟨_, _, -, -, hb⟩ | ⟨-, -, ⟨-, -, hname⟩ | ⟨-, -, hstatus⟩⟩⟩ :=
    run_responseVariant_cases h
  · exact namesVariant_of_jsonBody hb
  · exact hname ▸ namesVariant_file
  · exact namesVariant_of_statusName? hstatus

/-- What a variant carries has legal names, if the names of the responses and of the variant fit. -/
theorem hasLegalNames_of_describes {table : RefTable} {r : Document.Response} {v : Variant}
    (hclass : Legal className) (hname : Follows v.name) (h : Describes table className r v) :
    ∀ u ∈ v.members, u.HasLegalNames := by
  have hvariant : Legal (className ++ v.name) := hclass.append hname
  refine h.forall_members (fun s t ht => ?_) hasLegalNames_file fun ps hps => ?_
  · exact hasLegalNames_of_shapeOf? (hvariant.append (follows_ending (by decide))) ht
  · refine hasLegalNames_object.2 ⟨?_, fun p hp => ?_⟩
    · rintro _ ⟨⟩
      exact hvariant.append (follows_ending (by decide))
    · obtain ⟨q, hq⟩ := hps p hp
      rw [hq]
      exact hasLegalNames_primitive q

end Responses

/-! ## Documents -/

/-- All names that code is generated from, at any depth. -/
structure LegalNames (m : Metadata) : Prop where
  /-- The first part of the names of contract, controller and client. -/
  namePrefix : Legal m.namePrefix
  /-- The named schemas, with everything inside them. -/
  entries : ∀ p u, m.refs.get? p = some u → u.HasLegalNames
  /-- The sums of responses, their variants, and the bodies and headers that these carry. -/
  responses : ∀ o ∈ m.operations, Legal o.responseBody.className ∧
    ∀ e ∈ o.responseBody.variants, Legal e.2.name ∧ ∀ u ∈ e.2.members, u.HasLegalNames
  /-- The sums of request bodies, their variants, and what these carry. -/
  requests : ∀ o ∈ m.operations, ∀ b ∈ o.requestBody, Legal b.className ∧
    ∀ e ∈ b.content, Legal e.1.tag ∧ e.2.HasLegalNames

section Documents

variable {d : Document} {operationId namePrefix : String} {m : Metadata} {ws : List Warning}
  {σ σ' : Progress}

theorem legal_tag (media : Media) : Legal media.tag := by
  refine Naming.isTypeIdent_iff.1 ?_
  cases media <;> decide

/-- A content that is kept has a pointer for its type. -/
theorem exists_ref_of_mem_keptContents {content : Document.Content} {e : Media × Descriptor}
    (he : e ∈ keptContents content) : ∃ pointer, e.2 = .ref pointer := by
  have hadd : ∀ es done, e ∈ addContents done es → e ∈ done ∨ e ∈ es := by
    intro es
    induction es with
    | nil => exact fun done h => Or.inl h
    | cons f es ih =>
        intro done h
        rcases ih _ h with h | h
        · rcases Steady.mem_addContent h with h | rfl
          · exact Or.inl h
          · exact Or.inr List.mem_cons_self
        · exact Or.inr (List.mem_cons_of_mem f h)
  rcases hadd _ _ he with he | he
  · cases he
  · obtain ⟨entry, -, hkept⟩ := List.mem_filterMap.1 he
    obtain ⟨media, -, hkept⟩ := Option.bind_eq_some_iff.1 hkept
    obtain ⟨pointer, -, rfl⟩ := Option.map_eq_some_iff.1 hkept
    exact ⟨pointer, rfl⟩

/-- So has every content of a request body. -/
theorem exists_ref_of_requestBody {o : Document.Operation} {b : RequestBody}
    (h : (requestBody d operationId o).run σ = .ok (some b, σ')) {e : Media × Descriptor}
    (he : e ∈ b.content) : ∃ pointer, e.2 = .ref pointer := by
  obtain ⟨rb, -, -, hcontent, -⟩ := run_requestBody h
  rw [hcontent] at he
  exact exists_ref_of_mem_keptContents he

theorem legal_of_requestBody {o : Document.Operation} {b : RequestBody}
    (h : (requestBody d operationId o).run σ = .ok (some b, σ')) :
    Legal b.className ∧ ∀ e ∈ b.content, Legal e.1.tag ∧ e.2.HasLegalNames := by
  obtain ⟨rb, -, -, -, -, name, hname, hclass⟩ := run_requestBody h
  refine ⟨?_, fun e he => ⟨legal_tag e.1, ?_⟩⟩
  · rw [hclass]
    exact (Naming.legal_of_typeName? hname).append (follows_ending (by decide))
  · obtain ⟨pointer, hp⟩ := exists_ref_of_requestBody h he
    rw [hp]
    exact hasLegalNames_ref pointer

theorem legal_of_responseBody {o : Document.Operation} {b : ResponseBody}
    (h : (responseBody d operationId o).run σ = .ok (b, σ')) :
    Legal b.className ∧
      ∀ e ∈ b.variants, Legal e.2.name ∧ ∀ u ∈ e.2.members, u.HasLegalNames := by
  obtain ⟨⟨name, hname, hclass⟩, -⟩ := run_responseBody h
  have hlegal : Legal b.className := by
    rw [hclass]
    exact (Naming.legal_of_typeName? hname).append (follows_ending (by decide))
  refine ⟨hlegal, fun e he => ?_⟩
  have hvariant := forall_of_responseBody (P := fun e => NamesVariant e.2.name)
    namesVariant_of_responseVariant h e he
  obtain ⟨r, hr⟩ := exists_describes_of_responseBody h he
  exact ⟨hvariant.legal, hasLegalNames_of_describes hlegal hvariant.follows hr⟩

/-- All names of a resolved document are legal, whatever its parts are called. -/
theorem legalNames_of_resolve (h : d.resolve namePrefix = .ok (m, ws)) : LegalNames m where
  namePrefix := by
    obtain ⟨name, os, σ, hname, -, rfl, -⟩ := resolve_eq_ok_iff.1 h
    exact Naming.legal_of_typeName? hname
  entries := fun p u hu => hasLegalNames_of_expansion? ((settled_of_resolve h).get? hu)
  responses := by
    intro o ho
    obtain ⟨od, σ, σ', hr⟩ := exists_run_responseBody h ho
    exact legal_of_responseBody hr
  requests := by
    intro o ho b hb
    obtain ⟨od, σ, σ', hr⟩ := exists_run_requestBody h ho hb
    exact legal_of_requestBody hr

/-- A resolved document passes the check of names. -/
theorem checkNames_of_resolve (h : d.resolve namePrefix = .ok (m, ws)) :
    Emit.checkNames m = .ok () := by
  have hm := legalNames_of_resolve h
  refine Emit.checkNames_eq_ok_iff.2 ⟨hm.namePrefix, fun t ht => ?_⟩
  rcases List.mem_append.1 ht with ht | ht
  · obtain ⟨⟨p, u⟩, he, rfl⟩ := List.mem_map.1 ht
    exact hm.entries p u (RefTable.get?_of_mem_entries he)
  · obtain ⟨o, ho, ht⟩ := List.mem_flatMap.1 ht
    rcases List.mem_cons.1 ht with rfl | ht
    · obtain ⟨od, σ, σ', hr⟩ := exists_run_responseBody h ho
      obtain ⟨hclass, hvariants⟩ := hm.responses o ho
      rw [sum_eq (nodup_names_of_responseBody hr)]
      refine hasLegalNames_oneOf.2 ⟨hclass, fun v hv => ?_⟩
      obtain ⟨e, he, rfl⟩ := List.mem_map.1 hv
      exact hvariants e he
    · obtain ⟨b, hb, rfl⟩ := Option.map_eq_some_iff.1 (Option.mem_toList.1 ht)
      obtain ⟨hclass, hcontent⟩ := hm.requests o ho b hb
      refine hasLegalNames_oneOf.2 ⟨hclass, fun v hv => ?_⟩
      obtain ⟨e, he, rfl⟩ := List.mem_map.1 hv
      obtain ⟨htag, ht⟩ := hcontent e he
      exact ⟨htag, by simpa using ht⟩

end Documents

end Resolve
end ApiContract
