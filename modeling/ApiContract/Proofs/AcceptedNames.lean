import ApiContract.Emit.Client
import ApiContract.Proofs.HandlerArguments
import ApiContract.Proofs.LegalNames

/-!
# Names that every emitter accepts

**Input:** a step of emission, which may fail for many reasons.

Only the check of names says that a name is no identifier.  It stands before every emitter, so an
emitter fails in this way only if the check does; the names of a resolved document pass it.

**Results:**

* `NameSafe`: a step that does not fail because of a name, with one rule for each way in which steps
  are put together and one lemma for each emitting function;
* `nameSafe_modelModules`, `nameSafe_contractModule`, `nameSafe_controllerModule`,
  `nameSafe_clientModule`: the emitters do not fail because of a name if the check accepts the
  metadata;
* `resolve_names_accepted`: no emitter rejects a name of a resolved document.
-/

namespace ApiContract
namespace Emit

/-- A step that does not fail because of a name. -/
def NameSafe {α : Type} (x : Emitting α) : Prop :=
  ∀ kind name, x ≠ .error (.notIdentifier kind name)

/-! ## Rules -/

namespace NameSafe

variable {α β : Type} {x : Emitting α} {a : α}

theorem ok : NameSafe (.ok a : Emitting α) :=
  fun _ _ h => by cases h

theorem pure : NameSafe (Pure.pure a : Emitting α) :=
  ok

theorem bind {f : α → Emitting β} (hx : NameSafe x) (hf : ∀ a, NameSafe (f a)) :
    NameSafe (x >>= f) := by
  intro kind name h
  cases hxa : x with
  | error e =>
      rw [hxa] at h
      obtain rfl := Except.error.inj h
      exact hx kind name hxa
  | ok a =>
      rw [hxa] at h
      exact hf a kind name h

theorem map {f : α → β} (hx : NameSafe x) : NameSafe (x.map f) := by
  intro kind name h
  cases hxa : x with
  | error e =>
      rw [hxa] at h
      obtain rfl := Except.error.inj h
      exact hx kind name hxa
  | ok a =>
      rw [hxa] at h
      cases h

theorem mapM {f : α → Emitting β} (hf : ∀ a, NameSafe (f a)) (as : List α) :
    NameSafe (as.mapM f) := by
  induction as with
  | nil => exact pure
  | cons a as ih =>
      rw [List.mapM_cons]
      exact (hf a).bind fun b => ih.bind fun bs => pure

end NameSafe

/-! ## Arguments and types -/

section Parts

open NameSafe (ok pure mapM)

variable {refs : RefTable} {o : Operation} {t : Descriptor}

theorem nameSafe_paramScalar (p : Param) : NameSafe (paramScalar o p) := by
  unfold paramScalar
  split
  · exact ok
  · rintro _ _ ⟨⟩

theorem nameSafe_paramsAfter (done : List ContractParam) (ps : List Param) :
    NameSafe (paramsAfter o done ps) := by
  induction ps generalizing done with
  | nil => exact ok
  | cons p ps ih =>
      rw [paramsAfter]
      refine (nameSafe_paramScalar p).bind fun q => ?_
      dsimp only
      split
      · rintro _ _ ⟨⟩
      · exact ih _

theorem nameSafe_contractParams : NameSafe (contractParams o) :=
  (nameSafe_paramsAfter [] o.params).bind fun _ => pure

theorem nameSafe_target : NameSafe (target refs t) := by
  unfold target
  split
  · exact ok
  · rintro _ _ ⟨⟩

theorem nameSafe_typeWithin (hops : Nat) (t : Descriptor) : NameSafe (typeWithin refs hops t) := by
  fun_induction typeWithin refs hops t with
  | case7 hops e ih => exact ih.map
  | case9 hops ps h => rintro _ _ ⟨⟩
  | case10 pointer => rintro _ _ ⟨⟩
  | case11 pointer hops u hu ih => exact ih
  | case12 pointer hops e he =>
      rintro kind name ⟨⟩
      exact nameSafe_target kind name he
  | _ => exact ok

theorem nameSafe_typeOf : NameSafe (typeOf refs t) :=
  nameSafe_typeWithin _ t

theorem nameSafe_formRecord : NameSafe (formRecord refs t) := by
  refine nameSafe_target.bind fun u => ?_
  split
  · exact ok
  · rintro _ _ ⟨⟩

theorem nameSafe_headerProperties {v : Variant} : NameSafe (headerProperties v t) := by
  unfold headerProperties
  split
  · exact ok
  · rintro _ _ ⟨⟩

end Parts

/-! ## Handlers -/

section Handlers

open NameSafe (ok pure mapM)

variable {refs : RefTable} {o : Operation} {t : Descriptor}

theorem nameSafe_fieldRead {multipart : Bool} (p : Property) :
    NameSafe (fieldRead refs multipart p) := by
  unfold fieldRead
  dsimp only
  split
  · split
    · exact NameSafe.bind pure fun _ => pure
    · rintro _ _ ⟨⟩
  · refine nameSafe_target.bind fun u => ?_
    split
    · exact NameSafe.bind pure fun _ => pure
    · rintro _ _ ⟨⟩

theorem nameSafe_formRead {multipart : Bool} : NameSafe (formRead refs multipart t) :=
  nameSafe_formRecord.bind fun _ => (mapM nameSafe_fieldRead _).bind fun _ => pure

theorem nameSafe_bodyArm {media : Media} : NameSafe (bodyArm refs media t) := by
  unfold bodyArm
  cases media with
  | json => exact NameSafe.bind pure fun _ => pure
  | xml => exact NameSafe.bind pure fun _ => pure
  | form => exact nameSafe_formRead.map.bind fun _ => pure
  | multipart => exact nameSafe_formRead.map.bind fun _ => pure

theorem nameSafe_bodyDispatch {b : RequestBody} : NameSafe (bodyDispatch refs b) :=
  (mapM (fun _ => nameSafe_bodyArm) _).bind fun _ => pure

theorem nameSafe_statusSource {s : Status} {v : Variant} : NameSafe (statusSource o s v) := by
  unfold statusSource
  split
  · exact ok
  · exact ok
  · rintro _ _ ⟨⟩

theorem nameSafe_dispatchArm {s : Status} {v : Variant} : NameSafe (dispatchArm o s v) := by
  obtain ⟨name, headers?, payload⟩ := v
  refine nameSafe_statusSource.bind fun status => ?_
  cases headers? with
  | none => exact NameSafe.bind pure fun _ => pure
  | some h => exact nameSafe_headerProperties.bind fun _ => pure

theorem nameSafe_handler : NameSafe (handler refs o) := by
  refine nameSafe_contractParams.bind fun params => ?_
  refine (mapM (fun p => (nameSafe_paramScalar p).bind fun _ => pure) o.params).bind fun reads => ?_
  have harms : NameSafe (o.responseBody.variants.mapM fun e => dispatchArm o e.1 e.2) :=
    mapM (fun _ => nameSafe_dispatchArm) _
  split
  · exact NameSafe.bind pure fun body => harms.bind fun _ => pure
  · exact nameSafe_bodyDispatch.map.bind fun body => harms.bind fun _ => pure

end Handlers

/-! ## Clients -/

section Clients

open NameSafe (ok pure mapM)

variable {refs : RefTable} {o : Operation} {t : Descriptor}

theorem nameSafe_encodeArm {media : Media} : NameSafe (encodeArm refs media t) := by
  unfold encodeArm
  cases media with
  | json => exact NameSafe.bind pure fun _ => pure
  | xml => exact NameSafe.bind pure fun _ => pure
  | form => exact NameSafe.bind pure fun _ => pure
  | multipart => exact nameSafe_formRecord.bind fun _ => NameSafe.bind pure fun _ => pure

theorem nameSafe_bodyEncode {b : RequestBody} : NameSafe (bodyEncode refs b) :=
  (mapM (fun _ => nameSafe_encodeArm) _).bind fun _ => pure

theorem nameSafe_headerRead (p : Property) : NameSafe (headerRead p) := by
  unfold headerRead
  split
  · exact ok
  · rintro _ _ ⟨⟩

theorem nameSafe_decodeArm {s : Status} {v : Variant} : NameSafe (decodeArm refs s v) := by
  obtain ⟨name, headers?, payload⟩ := v
  cases headers? with
  | none =>
      refine NameSafe.bind pure fun _ => ?_
      rcases payload with _ | ⟨u, _ | _⟩
      · exact NameSafe.bind pure fun _ => pure
      · exact nameSafe_typeOf.map.bind fun _ => pure
      · exact NameSafe.bind pure fun _ => pure
  | some h =>
      refine nameSafe_typeOf.bind fun _ => nameSafe_headerProperties.bind fun _ => ?_
      refine (mapM nameSafe_headerRead _).bind fun _ => NameSafe.bind pure fun _ => ?_
      rcases payload with _ | ⟨u, _ | _⟩
      · exact NameSafe.bind pure fun _ => pure
      · exact nameSafe_typeOf.map.bind fun _ => pure
      · exact NameSafe.bind pure fun _ => pure

theorem nameSafe_clientMethod : NameSafe (clientMethod refs o) := by
  refine nameSafe_contractParams.bind fun params => ?_
  have harms : NameSafe (o.responseBody.variants.mapM fun e => decodeArm refs e.1 e.2) :=
    mapM (fun _ => nameSafe_decodeArm) _
  split
  · exact NameSafe.bind pure fun body => harms.bind fun _ => pure
  · exact nameSafe_bodyEncode.map.bind fun body => harms.bind fun _ => pure

end Clients

/-! ## Models -/

section Models

open NameSafe (ok pure mapM)

variable {refs : RefTable}

theorem nameSafe_fieldOf (p : Property) : NameSafe (fieldOf refs p) :=
  (nameSafe_typeOf.bind fun _ => pure).bind fun _ => pure

theorem nameSafe_recordShape {ps : List Property} : NameSafe (recordShape refs ps) := by
  unfold recordShape
  split
  · exact ok
  · exact (mapM nameSafe_fieldOf ps).map

theorem nameSafe_sumShape {vs : List (String × List Descriptor)} : NameSafe (sumShape refs vs) := by
  refine (mapM (fun v => ?_) vs).map
  exact (mapM (fun _ => nameSafe_typeOf.bind fun _ => pure) v.2).bind fun _ => pure

theorem nameSafe_of_modelOf? {t : Descriptor} {name : String} {shape : Emitting ModelShape}
    (h : modelOf? refs t = some (name, shape)) : NameSafe shape := by
  unfold modelOf? at h
  split at h
  · cases h
    exact nameSafe_recordShape
  · cases h
    exact nameSafe_recordShape
  · cases h
    exact nameSafe_sumShape
  · cases h

/-- A step of collection that does not fail because of a name, whatever has been collected. -/
def Collects {α : Type} (x : Collecting α) : Prop :=
  ∀ c, NameSafe (x.run.run c).1

theorem Collects.bind {α β : Type} {x : Collecting α} {f : α → Collecting β} (hx : Collects x)
    (hf : ∀ a, Collects (f a)) : Collects (x >>= f) := by
  intro c
  rw [ExceptT.run_bind, StateT.run_bind]
  cases hrun : x.run.run c with
  | mk r c₁ =>
      cases r with
      | error e =>
          rintro kind name ⟨⟩
          exact hx c kind name (by rw [hrun])
      | ok a => exact hf a c₁

theorem collects_claimPart (t : Descriptor) : Collects (claimPart refs t) := by
  unfold claimPart
  split
  · exact fun _ => ok
  · rename_i name shape hmodel
    intro c
    unfold claim
    have hget : ∀ f : Collection → Collecting Unit,
        ((get >>= f : Collecting Unit).run.run c) = (f c).run.run c := fun _ => rfl
    rw [hget]
    split
    · split
      · exact ok
      · exact ok
    · refine Collects.bind ?_ ?_ c
      · exact fun _ => nameSafe_of_modelOf? hmodel
      · exact fun _ _ => ok

theorem collects_forM (ts : List Descriptor) : Collects (ts.forM (claimPart refs)) := by
  induction ts with
  | nil => exact fun _ => ok
  | cons t ts ih => exact (collects_claimPart t).bind fun _ => ih

end Models

/-! ## Modules -/

section Modules

open NameSafe (ok pure mapM)

variable {m : Metadata}

/-- Models are collected without failing because of a name, if the check accepts all names. -/
theorem nameSafe_modelModules (hm : NameSafe (checkNames m)) : NameSafe (modelModules m).1 := by
  have hcollecting : Collects (collecting m) := by
    refine Collects.bind (fun _ => hm) fun _ => ?_
    rw [forM_visit]
    exact collects_forM _
  have hmodels : NameSafe (models m).1 := by
    rw [models_eq]
    exact (hcollecting _).map
  exact hmodels.map

theorem nameSafe_contractModule (hm : NameSafe (checkNames m)) : NameSafe (contractModule m) :=
  hm.bind fun _ => (mapM (fun _ => nameSafe_contractParams.bind fun _ => pure) _).bind fun _ => pure

theorem nameSafe_controllerModule (hm : NameSafe (checkNames m)) : NameSafe (controllerModule m) :=
  hm.bind fun _ => (mapM (fun _ => nameSafe_handler) _).bind fun _ => pure

theorem nameSafe_clientModule (hm : NameSafe (checkNames m)) : NameSafe (clientModule m) :=
  hm.bind fun _ => (mapM (fun _ => nameSafe_clientMethod) _).bind fun _ => pure

end Modules

end Emit

namespace Resolve

open Emit (contractModule controllerModule clientModule modelModules checkNames)

section Accepted

variable {d : Document} {namePrefix : String} {m : Metadata} {ws : List Warning}

/-- Everything that is named when a document is resolved is a legal identifier: the prefix, and at
any depth the named schemas, the arrays and objects inside them, the headers, and the sums of
requests and responses with their variants.  So the check of names accepts the document, and no
emitter fails because of a name. -/
theorem resolve_names_accepted (h : d.resolve namePrefix = .ok (m, ws)) :
    LegalNames m ∧ checkNames m = .ok () ∧
      ∀ kind name,
        contractModule m ≠ .error (.notIdentifier kind name) ∧
        (modelModules m).1 ≠ .error (.notIdentifier kind name) ∧
        controllerModule m ≠ .error (.notIdentifier kind name) ∧
        clientModule m ≠ .error (.notIdentifier kind name) := by
  have hcheck : checkNames m = .ok () := checkNames_of_resolve h
  have hsafe : Emit.NameSafe (checkNames m) := by
    rw [hcheck]
    exact .ok
  refine ⟨legalNames_of_resolve h, hcheck, fun kind name => ⟨?_, ?_, ?_, ?_⟩⟩
  · exact Emit.nameSafe_contractModule hsafe kind name
  · exact Emit.nameSafe_modelModules hsafe kind name
  · exact Emit.nameSafe_controllerModule hsafe kind name
  · exact Emit.nameSafe_clientModule hsafe kind name

/-- A document with a form, headers and pointers. -/
theorem resolve_names_accepted_reports :
    reportDocument.resolve "Api" = .ok (reportMetadata, reportWarnings) ∧
      checkNames reportMetadata = .ok () ∧
      Naming.Legal "SendReportResponseFileHeaders" := by
  obtain ⟨hlegal, hcheck, -⟩ := resolve_names_accepted resolve_reportDocument
  obtain ⟨-, hvariants⟩ := hlegal.responses reportOperation List.mem_cons_self
  obtain ⟨-, hmembers⟩ := hvariants (.code 200, reportFile) List.mem_cons_self
  exact ⟨resolve_reportDocument, hcheck, hmembers (.object (some "SendReportResponseFileHeaders")
    [{ name := "X-Total", type := .primitive .int, required := false }])
    (by decide) _ List.mem_cons_self⟩

end Accepted

end Resolve
end ApiContract
