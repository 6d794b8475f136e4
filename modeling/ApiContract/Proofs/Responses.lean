import ApiContract.Proofs.Documents

/-!
# The responses of an operation

**Input:** the responses that a document declares for an operation, each under the text of its
status.

Every response becomes a variant that describes it (`Describes`).  The variants are put into a map
by status, so that of several with the same status the last one stays.

**Results:**

* `run_responseVariants`: a response that is resolved becomes a variant that describes it, and all
  of them are put into the map;
* `responseBody_variants`: every declared response has a variant if and only if no two of them have
  the same status; the variants that there are have different names, and the sum has one variant for
  each of them.
-/

namespace ApiContract

/-! ## Tables that grow -/

namespace RefTable

theorem Grows.chain {t t' : RefTable} (h : Grows t t') {u v : Descriptor} {ps : List String}
    (hc : Chain t u ps v) : Chain t' u ps v := by
  induction hc with
  | here hu => exact .here hu
  | step hg _ ih => exact .step (h.get? hg) ih

theorem Grows.resolve? {t t' : RefTable} (h : Grows t t') {u v : Descriptor}
    (hr : t.resolve? u = some v) : t'.resolve? u = some v := by
  obtain ⟨ps, hc⟩ := resolve?_eq_some_iff.1 hr
  exact resolve?_eq_some_iff.2 ⟨ps, h.chain hc⟩

end RefTable

namespace Resolve

open Document (Schema)

/-! ## What describes a response -/

/-- A scalar is what a schema stands for, which is a text where there is no schema. -/
def StandsFor (table : RefTable) (context : String) (s? : Option Schema) (q : Primitive) : Prop :=
  match s? with
  | none => q = .string
  | some s => ∃ t, shapeOf? s context = some t ∧ table.resolve? t = some (.primitive q)

/-- A property describes a declared header. -/
structure DescribesHeader (table : RefTable) (context : String) (e : String × Document.Header)
    (p : Property) : Prop where
  name : p.name = e.1
  required : p.required = e.2.required
  type : ∃ q, p.type = .primitive q ∧
    StandsFor table (context ++ Naming.pascalCase e.1) e.2.schema q

/-- A variant describes a declared response. -/
structure Describes (table : RefTable) (className : String) (r : Document.Response) (v : Variant) :
    Prop where
  /-- It carries what the schema of a JSON content describes, else a file, if one can be sent, else
  nothing. -/
  payload :
    match (jsonContent? r.content).bind (·.schema) with
    | some s =>
      ∃ t, shapeOf? s (className ++ v.name ++ "Body") = some t ∧ v.payload = .body t false
    | none =>
      v.payload = if r.content.any fun e => isBinaryContent e.2 then .body .file true else .none
  /-- It has a record with the declared headers, if there are any. -/
  headers :
    (r.headers = [] ∧ v.headers = none) ∨
      r.headers ≠ [] ∧ ∃ ps,
        v.headers = some (.object (some (className ++ v.name ++ "Headers")) ps) ∧
        List.Forall₂ (DescribesHeader table (className ++ v.name ++ "Headers")) r.headers ps

section Growth

variable {table table' : RefTable} {context className : String}

theorem StandsFor.grows {s? : Option Schema} {q : Primitive} (h : StandsFor table context s? q)
    (hg : table.Grows table') : StandsFor table' context s? q := by
  cases s? with
  | none => exact h
  | some s =>
      obtain ⟨t, ht, hr⟩ := h
      exact ⟨t, ht, hg.resolve? hr⟩

theorem DescribesHeader.grows {e : String × Document.Header} {p : Property}
    (h : DescribesHeader table context e p) (hg : table.Grows table') :
    DescribesHeader table' context e p where
  name := h.name
  required := h.required
  type := by
    obtain ⟨q, hq, hs⟩ := h.type
    exact ⟨q, hq, hs.grows hg⟩

theorem Describes.grows {r : Document.Response} {v : Variant} (h : Describes table className r v)
    (hg : table.Grows table') : Describes table' className r v where
  payload := h.payload
  headers := by
    rcases h.headers with hn | ⟨hne, ps, hv, hps⟩
    · exact Or.inl hn
    · exact Or.inr ⟨hne, ps, hv, hps.imp fun _ _ hp => hp.grows hg⟩

/-- What holds of the descriptors of schemas in place, of files and of records of scalars holds of
the body and the headers of a variant. -/
theorem Describes.forall_members {P : Descriptor → Prop} {r : Document.Response} {v : Variant}
    (h : Describes table className r v)
    (hbody : ∀ s t, shapeOf? s (className ++ v.name ++ "Body") = some t → P t) (hfile : P .file)
    (hheaders : ∀ ps : List Property, (∀ p ∈ ps, ∃ q, p.type = .primitive q) →
      P (.object (some (className ++ v.name ++ "Headers")) ps)) : ∀ t ∈ v.members, P t := by
  intro t ht
  rcases List.mem_append.1 ht with ht | ht
  · have hpayload := h.payload
    split at hpayload
    · rename_i s _
      obtain ⟨u, hu, hp⟩ := hpayload
      rw [Variant.body?, hp] at ht
      obtain rfl := List.mem_singleton.1 ht
      exact hbody s t hu
    · split at hpayload
      · rw [Variant.body?, hpayload] at ht
        obtain rfl := List.mem_singleton.1 ht
        exact hfile
      · rw [Variant.body?, hpayload] at ht
        cases ht
  · rcases h.headers with ⟨-, hnone⟩ | ⟨-, ps, hsome, hps⟩
    · rw [hnone] at ht
      cases ht
    · rw [hsome] at ht
      obtain rfl := List.mem_singleton.1 ht
      refine hheaders ps fun p hp => ?_
      obtain ⟨_, -, hdescribes⟩ := exists_of_mem_right hps hp
      obtain ⟨q, hq, -⟩ := hdescribes.type
      exact ⟨q, hq⟩

end Growth

/-! ## Runs -/

section Runs

variable {d : Document} {operationId className context : String} {σ σ' : Progress}

theorem run_primitiveOf? {s? : Option Schema} {q : Primitive}
    (h : (primitiveOf? d s? context).run σ = .ok (some q, σ')) :
    σ.table.Grows σ'.table ∧ StandsFor σ'.table context s? q := by
  cases s? with
  | none =>
      obtain ⟨hq, rfl⟩ := run_pure_eq_ok.1 h
      exact ⟨.refl _, (Option.some.inj hq).symm⟩
  | some s =>
      obtain ⟨t, σ₁, ht, h⟩ := run_bind_eq_ok.1 h
      rw [run_get_bind] at h
      obtain ⟨hq, rfl⟩ := run_pure_eq_ok.1 h
      obtain ⟨hshape, hv⟩ := visit_typeOf ht
      obtain ⟨u, hu, hp⟩ := Option.bind_eq_some_iff.1 hq
      obtain rfl := Descriptor.primitive?_eq_some_iff.1 hp
      exact ⟨hv.grows, t, hshape, hu⟩

theorem run_headerProperties {headers : List (String × Document.Header)} {ps : List Property}
    (h : (headerProperties d operationId context headers).run σ = .ok (ps, σ')) :
    σ.table.Grows σ'.table ∧
      List.Forall₂ (DescribesHeader σ'.table context) headers ps := by
  induction headers generalizing σ ps with
  | nil =>
      obtain ⟨rfl, rfl⟩ := run_pure_eq_ok.1 h
      exact ⟨.refl _, .nil⟩
  | cons e rest ih =>
      obtain ⟨header, hd⟩ := e
      rw [headerProperties] at h
      obtain ⟨q?, σ₁, hq, h⟩ := run_bind_eq_ok.1 h
      obtain ⟨q, σ₂, hsome, h⟩ := run_bind_eq_ok.1 h
      obtain ⟨rfl, rfl⟩ := run_orRefuse_eq_ok.1 hsome
      obtain ⟨more, σ₃, hmore, h⟩ := run_bind_eq_ok.1 h
      obtain ⟨rfl, rfl⟩ := run_pure_eq_ok.1 h
      obtain ⟨hg, hs⟩ := run_primitiveOf? hq
      obtain ⟨hg', hrest⟩ := ih hmore
      exact ⟨hg.trans hg', .cons ⟨rfl, rfl, q, rfl, hs.grows hg'⟩ hrest⟩

theorem run_responseHeaders {name : String} {r : Document.Response} {u? : Option Descriptor}
    (h : (responseHeaders d operationId className name r).run σ = .ok (u?, σ')) :
    σ.table.Grows σ'.table ∧
      ((r.headers = [] ∧ u? = none) ∨
        r.headers ≠ [] ∧ ∃ ps, u? = some (.object (some (className ++ name ++ "Headers")) ps) ∧
          List.Forall₂ (DescribesHeader σ'.table (className ++ name ++ "Headers"))
            r.headers ps) := by
  unfold responseHeaders at h
  split at h
  · rename_i he
    obtain ⟨rfl, rfl⟩ := run_pure_eq_ok.1 h
    exact ⟨.refl _, Or.inl ⟨List.isEmpty_iff.1 he, rfl⟩⟩
  · rename_i hne
    obtain ⟨ps, σ₁, hps, h⟩ := run_bind_eq_ok.1 h
    obtain ⟨rfl, rfl⟩ := run_pure_eq_ok.1 h
    obtain ⟨hg, hall⟩ := run_headerProperties hps
    exact ⟨hg, Or.inr ⟨fun he => hne (List.isEmpty_iff.2 he), ps, rfl, hall⟩⟩

/-- A JSON body is a pointer, or it is described in place, and then its response is named by the
status. -/
theorem run_jsonBody_cases {status : Status} {s : Schema} {name : String} {t : Descriptor}
    (h : (jsonBody d operationId className status s).run σ = .ok ((name, t), σ')) :
    (∃ pointer, s.ref = some pointer ∧ t = .ref pointer ∧
        (reference d [] pointer).run σ = .ok (t, σ') ∧
        (Naming.typeName? (Naming.simpleName pointer) = some name ∨
          statusName? status = some name)) ∨
      s.ref = none ∧ statusName? status = some name ∧
        (typeOf d [] s (className ++ name ++ "Body")).run σ = .ok (t, σ') := by
  unfold jsonBody at h
  split at h
  · rename_i pointer hp
    obtain ⟨u, σ₁, hu, h⟩ := run_bind_eq_ok.1 h
    obtain ⟨rfl, -⟩ := visit_reference hu
    rw [run_get_bind] at h
    split at h
    · obtain ⟨name', σ₂, hn, h⟩ := run_bind_eq_ok.1 h
      obtain ⟨hname, rfl⟩ := run_typeName_eq_ok.1 hn
      obtain ⟨he, rfl⟩ := run_pure_eq_ok.1 h
      obtain ⟨rfl, rfl⟩ := Prod.mk.inj he
      exact Or.inl ⟨pointer, hp, rfl, hu, Or.inl hname⟩
    · obtain ⟨name', σ₂, hn, h⟩ := run_bind_eq_ok.1 h
      obtain ⟨hname, rfl⟩ := run_orRefuse_eq_ok.1 hn
      obtain ⟨he, rfl⟩ := run_pure_eq_ok.1 h
      obtain ⟨rfl, rfl⟩ := Prod.mk.inj he
      exact Or.inl ⟨pointer, hp, rfl, hu, Or.inr hname⟩
  · rename_i hp
    obtain ⟨name', σ₁, hn, h⟩ := run_bind_eq_ok.1 h
    obtain ⟨hname, rfl⟩ := run_orRefuse_eq_ok.1 hn
    obtain ⟨u, σ₂, hu, h⟩ := run_bind_eq_ok.1 h
    obtain ⟨he, rfl⟩ := run_pure_eq_ok.1 h
    obtain ⟨rfl, rfl⟩ := Prod.mk.inj he
    exact Or.inr ⟨hp, hname, hu⟩

theorem run_jsonBody {status : Status} {s : Schema} {name : String} {t : Descriptor}
    (h : (jsonBody d operationId className status s).run σ = .ok ((name, t), σ')) :
    σ.table.Grows σ'.table ∧ shapeOf? s (className ++ name ++ "Body") = some t := by
  rcases run_jsonBody_cases h with ⟨pointer, hp, rfl, hrun, -⟩ | ⟨-, -, hrun⟩
  · obtain ⟨-, hv⟩ := visit_reference hrun
    refine ⟨hv.grows, ?_⟩
    rw [shapeOf?, hp]
  · obtain ⟨hshape, hv⟩ := visit_typeOf hrun
    exact ⟨hv.grows, hshape⟩

/-- A response carries a JSON body, or a file, or nothing and is then named by its status.  A
content that cannot be sent is warned of, which leaves the table as it is. -/
theorem run_responseVariant_cases {status : Status} {r : Document.Response} {v : Variant}
    (h : (responseVariant d operationId className status r).run σ = .ok (v, σ')) :
    ∃ σ₁, (responseHeaders d operationId className v.name r).run σ₁ = .ok (v.headers, σ') ∧
      ((∃ s t, (jsonContent? r.content).bind (·.schema) = some s ∧ v.payload = .body t false ∧
          (jsonBody d operationId className status s).run σ = .ok ((v.name, t), σ₁)) ∨
        (jsonContent? r.content).bind (·.schema) = none ∧ σ₁.table = σ.table ∧
          (((r.content.any fun e => isBinaryContent e.2) = true ∧ v.payload = .body .file true ∧
              v.name = "File") ∨
            (r.content.any fun e => isBinaryContent e.2) = false ∧ v.payload = .none ∧
              statusName? status = some v.name)) := by
  unfold responseVariant at h
  split at h
  · rename_i s hs
    obtain ⟨⟨name, t⟩, σ₁, hb, h⟩ := run_bind_eq_ok.1 h
    obtain ⟨u?, σ₂, hu, h⟩ := run_bind_eq_ok.1 h
    obtain ⟨rfl, rfl⟩ := run_pure_eq_ok.1 h
    exact ⟨σ₁, hu, Or.inl ⟨s, t, hs, rfl, hb⟩⟩
  · rename_i hs
    split at h
    · rename_i hfile
      obtain ⟨u?, σ₁, hu, h⟩ := run_bind_eq_ok.1 h
      obtain ⟨rfl, rfl⟩ := run_pure_eq_ok.1 h
      exact ⟨σ, hu, Or.inr ⟨hs, rfl, Or.inl ⟨hfile, rfl, rfl⟩⟩⟩
    · rename_i hfile
      have hnone : (r.content.any fun e => isBinaryContent e.2) = false := Bool.eq_false_iff.2 hfile
      have hlast : ∀ {σ}, (do
          let name ← statusName operationId status
          let headers ← responseHeaders d operationId className name r
          return { name, headers, payload := .none } : Resolving Variant).run σ = .ok (v, σ') →
          (responseHeaders d operationId className v.name r).run σ = .ok (v.headers, σ') ∧
            v.payload = .none ∧ statusName? status = some v.name := by
        intro σ h
        obtain ⟨name, σ₁, hn, h⟩ := run_bind_eq_ok.1 h
        obtain ⟨hname, rfl⟩ := run_orRefuse_eq_ok.1 hn
        obtain ⟨u?, σ₂, hu, h⟩ := run_bind_eq_ok.1 h
        obtain ⟨rfl, rfl⟩ := run_pure_eq_ok.1 h
        exact ⟨hu, rfl, hname⟩
      split at h
      · obtain ⟨_, σ₁, hw, h⟩ := run_bind_eq_ok.1 h
        obtain ⟨-, rfl⟩ := Prod.mk.inj (Except.ok.inj hw)
        obtain ⟨hu, hpayload, hname⟩ := hlast h
        exact ⟨_, hu, Or.inr ⟨hs, rfl, Or.inr ⟨hnone, hpayload, hname⟩⟩⟩
      · obtain ⟨hu, hpayload, hname⟩ := hlast h
        exact ⟨σ, hu, Or.inr ⟨hs, rfl, Or.inr ⟨hnone, hpayload, hname⟩⟩⟩

/-- A response that is resolved becomes a variant that describes it. -/
theorem run_responseVariant {status : Status} {r : Document.Response} {v : Variant}
    (h : (responseVariant d operationId className status r).run σ = .ok (v, σ')) :
    σ.table.Grows σ'.table ∧ Describes σ'.table className r v := by
  obtain ⟨σ₁, hu, hcarries⟩ := run_responseVariant_cases h
  obtain ⟨hg, hheaders⟩ := run_responseHeaders hu
  rcases hcarries with ⟨s, t, hs, hpayload, hb⟩ | ⟨hs, htable, hcarries⟩
  · obtain ⟨hg', hshape⟩ := run_jsonBody hb
    refine ⟨hg'.trans hg, ?_, hheaders⟩
    rw [hs]
    exact ⟨t, hshape, hpayload⟩
  · refine ⟨htable ▸ hg, ?_, hheaders⟩
    rw [hs]
    rcases hcarries with ⟨hfile, hpayload, -⟩ | ⟨hfile, hpayload, -⟩
    · exact hpayload.trans (if_pos hfile).symm
    · exact hpayload.trans (if_neg (Bool.eq_false_iff.1 hfile)).symm

/-- The entry of a declared response: the status that its text names, and what describes it. -/
def DescribesEntry (table : RefTable) (className : String) (e : String × Document.Response)
    (f : Status × Variant) : Prop :=
  Status.ofName? e.1 = some f.1 ∧ Describes table className e.2 f.2

/-- All responses become variants, which are put into the map one after another.  What holds of
every response and its variant, and goes on to hold while the table grows, holds of all of them.
Their names are different, since a name that is already there is refused. -/
theorem run_responseVariants_of
    {R : RefTable → String × Document.Response → Status × Variant → Prop}
    (hgrows : ∀ {t t' : RefTable} {e f}, t.Grows t' → R t e f → R t' e f)
    (hrun : ∀ {text r status v σ σ'}, Status.ofName? text = some status →
      (responseVariant d operationId className status r).run σ = .ok (v, σ') →
      R σ'.table (text, r) (status, v))
    {responses : List (String × Document.Response)} {done all : List (Status × Variant)}
    (h : (responseVariants d operationId className done responses).run σ = .ok (all, σ')) :
    σ.table.Grows σ'.table ∧
      ((done.map fun e => e.2.name).Nodup → (all.map fun e => e.2.name).Nodup) ∧
      ∃ vs, List.Forall₂ (R σ'.table) responses vs ∧ all = Assoc.putAll done vs := by
  induction responses generalizing σ done with
  | nil =>
      obtain ⟨rfl, rfl⟩ := run_pure_eq_ok.1 h
      exact ⟨.refl _, id, [], .nil, rfl⟩
  | cons e rest ih =>
      obtain ⟨text, r⟩ := e
      rw [responseVariants] at h
      obtain ⟨status, σ₁, hstatus, h⟩ := run_bind_eq_ok.1 h
      obtain ⟨htext, rfl⟩ := run_orRefuse_eq_ok.1 hstatus
      obtain ⟨v, σ₂, hv, h⟩ := run_bind_eq_ok.1 h
      rw [run_get_bind] at h
      dsimp only at h
      -- A default response without a status of its own is refused, and so is a name that is taken.
      split at h
      · rw [run_bind_of_error (run_refuse _ _)] at h
        cases h
      split at h
      · rw [run_bind_of_error (run_refuse _ _)] at h
        cases h
      · rename_i hfree
        obtain ⟨hg', hnodup, vs, hvs, rfl⟩ := ih h
        refine ⟨(run_responseVariant hv).1.trans hg',
          fun hn => hnodup (Assoc.nodup_values_put hn ?_), (status, v) :: vs,
          .cons (hgrows hg' (hrun htext hv)) hvs, rfl⟩
        intro e he hname
        exact hfree (List.any_eq_true.2 ⟨e, he, by simpa using hname⟩)

/-- All responses become variants that describe them. -/
theorem run_responseVariants {responses : List (String × Document.Response)}
    {done all : List (Status × Variant)}
    (h : (responseVariants d operationId className done responses).run σ = .ok (all, σ')) :
    σ.table.Grows σ'.table ∧
      ((done.map fun e => e.2.name).Nodup → (all.map fun e => e.2.name).Nodup) ∧
      ∃ vs, List.Forall₂ (DescribesEntry σ'.table className) responses vs ∧
        all = Assoc.putAll done vs :=
  run_responseVariants_of (R := fun t => DescribesEntry t className)
    (fun hg hd => ⟨hd.1, hd.2.grows hg⟩)
    (fun htext hv => ⟨htext, (run_responseVariant hv).2⟩) h

end Runs

/-! ## Bodies of responses -/

section Bodies

variable {d : Document} {operationId : String} {σ σ' : Progress} {b : ResponseBody}

theorem run_responseBody {o : Document.Operation}
    (h : (responseBody d operationId o).run σ = .ok (b, σ')) :
    (∃ name, Naming.typeName? operationId = some name ∧ b.className = name ++ "Response") ∧
      (responseVariants d operationId b.className [] o.responses).run σ = .ok (b.variants, σ') := by
  obtain ⟨name, σ₁, hname, h⟩ := run_bind_eq_ok.1 h
  obtain ⟨htype, rfl⟩ := run_typeName_eq_ok.1 hname
  obtain ⟨vs, σ₂, hvs, h⟩ := run_bind_eq_ok.1 h
  obtain ⟨rfl, rfl⟩ := run_pure_eq_ok.1 h
  exact ⟨⟨name, htype, rfl⟩, hvs⟩

theorem nodup_names_of_responseBody {o : Document.Operation}
    (h : (responseBody d operationId o).run σ = .ok (b, σ')) :
    (b.variants.map fun e => e.2.name).Nodup := by
  obtain ⟨-, hvs⟩ := run_responseBody h
  obtain ⟨-, hnodup, -⟩ := run_responseVariants hvs
  exact hnodup List.nodup_nil

/-- What holds of every response when it is resolved holds of all that are kept. -/
theorem forall_of_responseBody {P : Status × Variant → Prop} {o : Document.Operation}
    (hrun : ∀ {status r v σ σ'},
      (responseVariant d operationId b.className status r).run σ = .ok (v, σ') → P (status, v))
    (h : (responseBody d operationId o).run σ = .ok (b, σ')) : ∀ e ∈ b.variants, P e := by
  obtain ⟨-, hvs⟩ := run_responseBody h
  obtain ⟨-, -, vs, hall, hput⟩ := run_responseVariants_of (R := fun _ _ e => P e)
    (fun _ he => he) (fun _ hv => hrun hv) hvs
  intro e he
  rw [hput] at he
  obtain ⟨_, -, hP⟩ :=
    exists_of_mem_right hall (Assoc.mem_of_latest? (Assoc.latest?_of_mem_putAll he))
  exact hP

/-- Every variant describes a declared response. -/
theorem exists_describes_of_responseBody {o : Document.Operation}
    (h : (responseBody d operationId o).run σ = .ok (b, σ')) {e : Status × Variant}
    (he : e ∈ b.variants) : ∃ r, Describes σ'.table b.className r e.2 := by
  obtain ⟨-, hvs⟩ := run_responseBody h
  obtain ⟨-, -, vs, hdescribes, hput⟩ := run_responseVariants hvs
  rw [hput] at he
  rcases Assoc.mem_putAll he with he | ⟨f, hf, hv⟩
  · cases he
  · obtain ⟨r, -, -, hr⟩ := exists_of_mem_right hdescribes hf
    exact ⟨r.2, hv ▸ hr⟩

/-- The variants of a response are kept by status, and what is a file has the type of files. -/
theorem variants_of_responseBody {o : Document.Operation}
    (h : (responseBody d operationId o).run σ = .ok (b, σ')) :
    (b.variants.map Prod.fst).Nodup ∧
      ∀ e ∈ b.variants, ∀ t, e.2.payload = .body t true → t = .file := by
  constructor
  · obtain ⟨-, hvs⟩ := run_responseBody h
    obtain ⟨-, -, vs, -, hput⟩ := run_responseVariants hvs
    rw [hput]
    exact Assoc.nodup_keys_putAll List.nodup_nil
  · intro e he t ht
    obtain ⟨r, hr⟩ := exists_describes_of_responseBody h he
    have hpayload := hr.payload
    rw [ht] at hpayload
    split at hpayload
    · obtain ⟨u, -, hu⟩ := hpayload
      cases hu
    · split at hpayload
      · exact (Payload.body.inj hpayload).1
      · cases hpayload

/-- Headers are a record that is not empty. -/
theorem headers_of_responseBody {o : Document.Operation}
    (h : (responseBody d operationId o).run σ = .ok (b, σ')) {e : Status × Variant}
    (he : e ∈ b.variants) :
    e.2.headers = none ∨ ∃ name ps, e.2.headers = some (.object (some name) ps) ∧ ps ≠ [] := by
  obtain ⟨r, hr⟩ := exists_describes_of_responseBody h he
  rcases hr.headers with ⟨-, hnone⟩ | ⟨hne, ps, hsome, hps⟩
  · exact Or.inl hnone
  · refine Or.inr ⟨_, ps, hsome, fun hnil => hne ?_⟩
    rw [hnil] at hps
    exact List.forall₂_nil_right_iff.1 hps

/-- Headers are a record of scalars. -/
theorem headerTypes_of_responseBody {o : Document.Operation}
    (h : (responseBody d operationId o).run σ = .ok (b, σ')) {e : Status × Variant}
    (he : e ∈ b.variants) {u : Descriptor} (hu : e.2.headers = some u) :
    ∃ name ps, u = .object (some name) ps ∧ ∀ p ∈ ps, ∃ q, p.type = .primitive q := by
  obtain ⟨r, hr⟩ := exists_describes_of_responseBody h he
  rcases hr.headers with ⟨-, hnone⟩ | ⟨-, ps, hsome, hps⟩
  · rw [hnone] at hu
    cases hu
  · refine ⟨_, ps, Option.some.inj (hu.symm.trans hsome), fun p hp => ?_⟩
    obtain ⟨_, -, hdescribes⟩ := exists_of_mem_right hps hp
    obtain ⟨q, hq, -⟩ := hdescribes.type
    exact ⟨q, hq⟩

/-- The sum has the latest variant of every name. -/
theorem sum_eq_putAll (b : ResponseBody) :
    b.sum = .oneOf b.className
      (Assoc.putAll [] (b.variants.map fun e => (e.2.name, e.2.members))) := by
  rw [Assoc.putAll, List.foldl_map]
  rfl

/-- If the names of the variants are different, the sum has one variant for each of them. -/
theorem sum_eq (hn : (b.variants.map fun e => e.2.name).Nodup) :
    b.sum = .oneOf b.className (b.variants.map fun e => (e.2.name, e.2.members)) := by
  have hkeys : ((b.variants.map fun e => (e.2.name, e.2.members)).map Prod.fst).Nodup := by
    rw [List.map_map]
    exact hn
  rw [sum_eq_putAll, Assoc.putAll_eq_iff.2 hkeys]

theorem map_ofName?_eq {table : RefTable} {className : String}
    {responses : List (String × Document.Response)} {vs : List (Status × Variant)}
    (h : List.Forall₂ (DescribesEntry table className) responses vs) :
    responses.map (fun e => Status.ofName? e.1) = (vs.map Prod.fst).map some := by
  rw [List.map_map, map_eq_map_iff]
  exact h.imp fun _ _ he => he.1

/-- An operation resolves its parameters, which have to fit its path, then its request body, and
then its responses. -/
theorem run_operation_steps {path : String} {method : Method} {item : Document.PathItem}
    {od : Document.Operation} {o : Operation}
    (h : (operation d path method item od).run σ = .ok (o, σ')) :
    ∃ scheme? described σ₁ σ₂, security d od = .ok scheme? ∧
      (parameters d o.operationId item od).run σ = .ok (described, σ₁) ∧
      o.params = (scheme?.map securityParam).toList ++
        described.filter (fun r => !isSecurityHeader scheme? r) ∧
      undeclared? path o.params = none ∧
      (requestBody d o.operationId od).run σ₁ = .ok (o.requestBody, σ₂) ∧
      (responseBody d o.operationId od).run σ₂ = .ok (o.responseBody, σ') := by
  unfold operation at h
  obtain ⟨operationId, σ₁, hid, h⟩ := run_bind_eq_ok.1 h
  obtain ⟨-, rfl⟩ := run_orRefuse_eq_ok.1 hid
  obtain ⟨_, σ₂, hname, h⟩ := run_bind_eq_ok.1 h
  obtain ⟨-, rfl⟩ := run_typeName_eq_ok.1 hname
  obtain ⟨scheme?, σ₃, hscheme, h⟩ := run_bind_eq_ok.1 h
  obtain ⟨hsecurity, rfl⟩ := run_lift_eq_ok.1 hscheme
  obtain ⟨described, σ₄, hparams, h⟩ := run_bind_eq_ok.1 h
  dsimp only at h
  split at h
  · rw [run_bind_of_error (run_refuse _ _)] at h
    cases h
  · rename_i hdeclared
    obtain ⟨b?, σ₅, hrequest, h⟩ := run_bind_eq_ok.1 h
    obtain ⟨b, σ₆, hresponses, h⟩ := run_bind_eq_ok.1 h
    obtain ⟨rfl, rfl⟩ := run_pure_eq_ok.1 h
    exact ⟨scheme?, described, σ₄, σ₅, hsecurity, hparams, rfl,
      Option.eq_none_iff_forall_ne_some.2 hdeclared, hrequest, hresponses⟩

/-- The last things that an operation resolves are its request body and its responses. -/
theorem run_operation {path : String} {method : Method} {item : Document.PathItem}
    {od : Document.Operation} {o : Operation} (h : (operation d path method item od).run σ =
    .ok (o, σ')) :
    ∃ σ₁ σ₂, (requestBody d o.operationId od).run σ₁ = .ok (o.requestBody, σ₂) ∧
      (responseBody d o.operationId od).run σ₂ = .ok (o.responseBody, σ') := by
  obtain ⟨_, _, σ₁, σ₂, -, -, -, -, hrequest, hresponses⟩ := run_operation_steps h
  exact ⟨σ₁, σ₂, hrequest, hresponses⟩

/-- What an operation resolves before its bodies. -/
theorem run_operation_params {path : String} {method : Method} {item : Document.PathItem}
    {od : Document.Operation} {o : Operation}
    (h : (operation d path method item od).run σ = .ok (o, σ')) :
    ∃ scheme? described σ₁, security d od = .ok scheme? ∧
      (parameters d o.operationId item od).run σ = .ok (described, σ₁) ∧
      o.params = (scheme?.map securityParam).toList ++
        described.filter (fun r => !isSecurityHeader scheme? r) ∧
      undeclared? path o.params = none := by
  obtain ⟨scheme?, described, σ₁, _, hsecurity, hparams, hps, hdeclared, -⟩ := run_operation_steps h
  exact ⟨scheme?, described, σ₁, hsecurity, hparams, hps, hdeclared⟩

theorem exists_run_responseBody {namePrefix : String} {m : Metadata} {ws : List Warning}
    {o : Operation} (h : d.resolve namePrefix = .ok (m, ws)) (ho : o ∈ m.operations) :
    ∃ od σ σ', (responseBody d o.operationId od).run σ = .ok (o.responseBody, σ') := by
  obtain ⟨e, -, _, σ', hr⟩ := exists_of_mem_right (run_endpoints h) ho
  obtain ⟨_, σ, -, hb⟩ := run_operation hr
  exact ⟨_, σ, σ', hb⟩

theorem exists_run_requestBody {namePrefix : String} {m : Metadata} {ws : List Warning}
    {o : Operation} {r : RequestBody} (h : d.resolve namePrefix = .ok (m, ws))
    (ho : o ∈ m.operations) (hr : o.requestBody = some r) :
    ∃ od σ σ', (requestBody d o.operationId od).run σ = .ok (some r, σ') := by
  obtain ⟨e, -, _, _, hrun⟩ := exists_of_mem_right (run_endpoints h) ho
  obtain ⟨_, _, hb, -⟩ := run_operation hrun
  rw [hr] at hb
  exact ⟨_, _, _, hb⟩

end Bodies

/-! ## A document with several responses -/

section Hosts

def numberSchema : Schema := { type := some "integer" }

def queryNumber (name : String) : Document.Parameter where
  name
  location := "query"
  required := true
  schema := some numberSchema
  description := none

abbrev faultPointer : String :=
  "#/components/schemas/Fault"

/-- The record of failures, which have a status. -/
def fault : Descriptor :=
  .object (some "Fault") [{ name := "code", type := .primitive .int, required := true }]

/-- A response with a file and a header. -/
def fileResponse : Document.Response where
  description := none
  headers := [("X-Total", { required := true, schema := some numberSchema, description := none })]
  content := [("application/octet-stream", { schema := none })]

def emptyResponse : Document.Response where
  description := none
  headers := []
  content := []

/-- A response with the record of failures. -/
def faultResponse : Document.Response where
  description := none
  headers := []
  content := [("application/json", { schema := some { ref := some faultPointer } })]

/-- An operation with these responses, whose parameters have names that generated code has other
uses for. -/
def listHosts : Document.Operation where
  operationId := some "listHosts"
  parameters := ["server", "server_param", "url"].map fun name => .inline (queryNumber name)
  responses := [("200", fileResponse), ("404", emptyResponse), ("default", faultResponse)]

def hostDocument : Document where
  paths := [("/hosts", { get := some listHosts })]
  components := {
    schemas := [("Fault", {
      type := some "object"
      properties := [("code", numberSchema)]
      required := ["code"] })] }

def queryParam (name : String) : Param where
  name
  location := .query
  property := { name, type := .primitive .int, required := true }

def hostFile : Variant where
  name := "File"
  headers := some (.object (some "ListHostsResponseFileHeaders")
    [{ name := "X-Total", type := .primitive .int, required := true }])
  payload := .body .file true

def hostMissing : Variant where
  name := "NotFound"
  headers := none
  payload := .none

def hostFault : Variant where
  name := "Fault"
  headers := none
  payload := .body (.ref faultPointer) false

def hostResponses : ResponseBody where
  className := "ListHostsResponse"
  variants := [(.code 200, hostFile), (.code 404, hostMissing), (.default, hostFault)]

/-- The state after the operation has been resolved. -/
def hostProgress : Progress where
  table := { entries := [(faultPointer, fault)] }
  entered := [faultPointer]

def hostOperation : Operation where
  path := "/hosts"
  method := .get
  operationId := "listHosts"
  summary := none
  params := ["server", "server_param", "url"].map queryParam
  requestBody := none
  responseBody := hostResponses

/-- What the document is resolved to. -/
def hostMetadata : Metadata where
  namePrefix := "Api"
  operations := [hostOperation]
  refs := hostProgress.table

theorem run_parameters_hosts :
    (parameters hostDocument "listHosts" { get := some listHosts } listHosts).run {} =
      .ok (hostOperation.params, {}) := by
  have hquery : ∀ name, (parameter hostDocument "listHosts" (queryNumber name)).run {} =
      .ok (queryParam name, {}) := fun name => run_parameter_scalar rfl rfl rfl rfl rfl
  refine run_parameters_of (["server", "server_param", "url"].map queryNumber) rfl rfl rfl ?_
  exact .cons (hquery _) (.cons (hquery _) (.cons (hquery _) .nil))

theorem run_reference_fault :
    (reference hostDocument [] faultPointer).run {} = .ok (.ref faultPointer, hostProgress) := by
  refine (run_reference_eq_ok (by decide) (by decide)).2
    ⟨rfl, _, "Fault", fault, { entered := [faultPointer] }, rfl, rfl, ?_, rfl⟩
  refine run_named_record (by decide) (by decide) (by decide) ?_
  exact run_propertiesOf_cons (run_typeOf_scalar rfl rfl rfl) run_propertiesOf_nil

theorem run_responseBody_hosts :
    (responseBody hostDocument "listHosts" listHosts).run {} =
      .ok (hostResponses, hostProgress) := by
  have hfile : (responseVariant hostDocument "listHosts" "ListHostsResponse" (.code 200)
      fileResponse).run {} = .ok (hostFile, {}) :=
    run_responseVariant_file rfl rfl (run_responseHeaders_scalar rfl rfl rfl rfl)
  have hmissing : (responseVariant hostDocument "listHosts" "ListHostsResponse" (.code 404)
      emptyResponse).run {} = .ok (hostMissing, {}) :=
    run_responseVariant_bare rfl rfl (run_responseHeaders_none rfl)
  have hbody : (jsonBody hostDocument "listHosts" "ListHostsResponse" .default
      { ref := some faultPointer }).run {} = .ok (("Fault", .ref faultPointer), hostProgress) :=
    run_jsonBody_of_named rfl run_reference_fault rfl rfl
  have hfault : (responseVariant hostDocument "listHosts" "ListHostsResponse" .default
      faultResponse).run {} = .ok (hostFault, hostProgress) :=
    run_responseVariant_json rfl hbody (run_responseHeaders_none rfl)
  refine run_responseBody_of "ListHosts" rfl ?_
  refine run_responseVariants_cons rfl hfile rfl rfl ?_
  refine run_responseVariants_cons rfl hmissing rfl rfl ?_
  exact run_responseVariants_cons rfl hfault rfl rfl rfl

theorem resolve_hostDocument : hostDocument.resolve "Api" = .ok (hostMetadata, []) := by
  have hes : operationsOf hostDocument =
      [("/hosts", .get, { get := some listHosts }, listHosts)] := rfl
  have hrun : (endpoint hostDocument ("/hosts", .get, { get := some listHosts }, listHosts)).run {}
      = .ok (hostOperation, hostProgress) :=
    run_operation_of rfl rfl rfl run_parameters_hosts rfl rfl (run_requestBody_none rfl)
      run_responseBody_hosts
  exact resolve_of_operation hes rfl hrun

end Hosts

/-! ## Declared responses -/

section Bodies

variable {d : Document} {operationId : String} {σ σ' : Progress} {b : ResponseBody}

/-- Every declared response becomes a variant that describes it, and of several with the same status
the last one is kept.  So all of them are kept, in their order, if and only if no two have the same
status.  The variants that are kept have different names, and the sum has one variant for each. -/
theorem responseBody_variants {o : Document.Operation}
    (h : (responseBody d operationId o).run σ = .ok (b, σ')) :
    ∃ vs, List.Forall₂ (DescribesEntry σ'.table b.className) o.responses vs ∧
      (∀ s, b.variants.lookup s = Assoc.latest? vs s) ∧
      (b.variants = vs ↔ (o.responses.map fun e => Status.ofName? e.1).Nodup) ∧
      (b.variants.map Prod.fst).Nodup ∧
      (b.variants.map fun e => e.2.name).Nodup ∧
      b.sum = .oneOf b.className (b.variants.map fun e => (e.2.name, e.2.members)) := by
  have hnames := nodup_names_of_responseBody h
  obtain ⟨-, hvs⟩ := run_responseBody h
  obtain ⟨-, -, vs, hdescribes, hput⟩ := run_responseVariants hvs
  refine ⟨vs, hdescribes, fun s => ?_, ?_, ?_, hnames, sum_eq hnames⟩
  · have hget := Assoc.get?_putAll [] vs s
    rw [← hput] at hget
    exact hget.trans Option.or_none
  · rw [hput, Assoc.putAll_eq_iff, map_ofName?_eq hdescribes]
    exact (List.nodup_map_iff fun _ _ => Option.some.inj).symm
  · rw [hput]
    exact Assoc.nodup_keys_putAll List.nodup_nil

theorem responseBody_variants_hosts :
    (responseBody hostDocument "listHosts" listHosts).run {} = .ok (hostResponses, hostProgress) ∧
      List.Forall₂ (DescribesEntry hostProgress.table "ListHostsResponse") listHosts.responses
        hostResponses.variants := by
  obtain ⟨vs, hvs, -, hiff, -⟩ := responseBody_variants run_responseBody_hosts
  rw [hiff.2 (by decide)]
  exact ⟨run_responseBody_hosts, hvs⟩

/-- An operation that declares one status in two ways. -/
def exportHosts : Document.Operation where
  operationId := some "exportHosts"
  responses := [("200", emptyResponse), ("0200", { emptyResponse with
    content := [("application/octet-stream", { schema := none })] })]

/-- Two texts may name the same status.  Then the second response takes the place of the first, and
nothing is left of it. -/
theorem responseBody_loses_response :
    Document.resolve { paths := [("/hosts", { get := some exportHosts })] } "Api" = .ok ({
        namePrefix := "Api"
        operations := [{
          path := "/hosts"
          method := .get
          operationId := "exportHosts"
          summary := none
          params := []
          requestBody := none
          responseBody := {
            className := "ExportHostsResponse"
            variants := [(.code 200, {
              name := "File"
              headers := none
              payload := .body .file true })] } }]
        refs := .empty }, []) ∧
      exportHosts.responses.length = 2 :=
  ⟨rfl, rfl⟩

end Bodies

end Resolve
end ApiContract
