import ApiContract.Proofs.Responses
import ApiContract.Proofs.Templates

/-!
# Merged parameters

**Input:** an operation of a document.  Its parameters are declared for its path or for itself, in
place or by pointers to shared ones, and several of them may have the same name and place.

`Merged` says what the parameters of the operation have to be, by the document alone.

**Results:**

* `Merged.unique`: no two lists of parameters are what the operation has to have;
* `operation_params`: an operation that is resolved has these parameters, no two of which have the
  same name and place, and one for every name in its path;
* `resolve_params`: so has every operation of a document that is resolved.
-/

namespace ApiContract

theorem Location.name_of_ofName? {s : String} {l : Location} (h : ofName? s = some l) :
    l.name = s := by
  simpa using List.find?_some h

/-- The name and the place of a declaration, by which a later one replaces it. -/
def Document.Parameter.key (p : Document.Parameter) : String × String :=
  (p.name, p.location)

namespace Resolve

open Document (Schema ParameterEntry)

/-! ## What the parameters have to be -/

/-- A schema stands for a scalar, by its own keywords or as a pointer to a schema that does. -/
inductive IsScalar (d : Document) : Schema → Primitive → Prop
  | own {s : Schema} {q : Primitive} : s.ref = none → s.isComposition = false →
      scalarOf? s = some (.primitive q) → IsScalar d s q
  | behind {s s' : Schema} {pointer : String} {q : Primitive} : s.ref = some pointer →
      d.schema? pointer = some s' → IsScalar d s' q → IsScalar d s q

/-- What a parameter holds: the scalar of its schema, or a text if it has no schema. -/
def HasScalar (d : Document) (s? : Option Schema) (q : Primitive) : Prop :=
  match s? with
  | none => q = .string
  | some s => IsScalar d s q

/-- An entry declares a parameter in place, or points to an entry that does. -/
inductive Declares (d : Document) : ParameterEntry → Document.Parameter → Prop
  | inline (p : Document.Parameter) : Declares d (.inline p) p
  | ref {pointer : String} {e : ParameterEntry} {p : Document.Parameter} :
      d.parameter? pointer = some e → Declares d e p → Declares d (.ref pointer) p

/-- A parameter is what a declaration describes.  In a path it has to be given. -/
structure DescribesParam (d : Document) (p : Document.Parameter) (r : Param) : Prop where
  name : r.name = p.name
  location : Location.ofName? p.location = some r.location
  property : ∃ q, HasScalar d p.schema q ∧ r.property = {
    name := p.name
    type := .primitive q
    required := p.required || r.location == .path }

/-- A declared scheme that callers can be known by. -/
inductive Supported (s : Document.SecurityScheme) : Security → Prop
  | bearer {text : String} : s.type = "http" → s.scheme = some text →
      Text.sameIgnoringCase "bearer" text = true → Supported s .bearerToken
  | header {name : String} : s.type = "apiKey" → s.location = some "header" → s.name = some name →
      Supported s (.header name)

/-- The requirements of an operation: its own, though it may be that there are none, or without a
word about them those of the document. -/
def requirements (d : Document) (od : Document.Operation) : List Document.Requirement :=
  match od.security with
  | some own => own
  | none => d.security.getD []

/-- The scheme that holds for an operation, which is the first one of its first requirement. -/
inductive Secured (d : Document) (od : Document.Operation) : Option Security → Prop
  | unrestricted : requirements d od = [] → Secured d od none
  | unnamed {rest : List Document.Requirement} : requirements d od = [] :: rest → Secured d od none
  | scheme {name : String} {scopes : List String} {more : Document.Requirement}
      {rest : List Document.Requirement} {declared : Document.SecurityScheme} {s : Security} :
      requirements d od = ((name, scopes) :: more) :: rest →
      d.components.securitySchemes.lookup name = some declared → Supported declared s →
      Secured d od (some s)

/-- The parameters that an operation has to have.  The header of its security scheme comes first.
Then come the declared names and places in the order in which they are first mentioned, each with
what its last declaration describes, but for headers that differ from the first one in capitals
only. -/
def Merged (d : Document) (item : Document.PathItem) (od : Document.Operation)
    (params : List Param) : Prop :=
  ∃ (scheme? : Option Security) (declared : List Document.Parameter) (described : List Param),
    Secured d od scheme? ∧
      List.Forall₂ (Declares d) (item.parameters ++ od.parameters) declared ∧
      List.Forall₂ (fun k r => ∃ p, Assoc.latest? (declared.map fun p => (p.key, p)) k = some p ∧
        DescribesParam d p r) (declared.map (·.key)).eraseDups described ∧
      params = (scheme?.map securityParam).toList ++
        described.filter fun r => !isSecurityHeader scheme? r

/-! ## Only one list of parameters is meant -/

section Unique

variable {d : Document} {item : Document.PathItem} {od : Document.Operation}

theorem IsScalar.unique {s : Schema} {q q' : Primitive} (h : IsScalar d s q)
    (h' : IsScalar d s q') : q = q' := by
  induction h with
  | own hr _ hq =>
      cases h' with
      | own _ _ hq' => exact Descriptor.primitive.inj (Option.some.inj (hq.symm.trans hq'))
      | behind hr' => cases hr.symm.trans hr'
  | behind hr hs _ ih =>
      cases h' with
      | own hr' => cases hr.symm.trans hr'
      | behind hr' hs' hq' =>
          obtain rfl := Option.some.inj (hr.symm.trans hr')
          obtain rfl := Option.some.inj (hs.symm.trans hs')
          exact ih hq'

theorem HasScalar.unique {s? : Option Schema} {q q' : Primitive} (h : HasScalar d s? q)
    (h' : HasScalar d s? q') : q = q' := by
  cases s? with
  | none => exact h.trans h'.symm
  | some s => exact IsScalar.unique h h'

theorem Declares.unique {e : ParameterEntry} {p p' : Document.Parameter} (h : Declares d e p)
    (h' : Declares d e p') : p = p' := by
  induction h with
  | inline =>
      cases h'
      rfl
  | ref he _ ih =>
      cases h' with
      | ref he' hp' =>
          obtain rfl := Option.some.inj (he.symm.trans he')
          exact ih hp'

theorem DescribesParam.unique {p : Document.Parameter} {r r' : Param} (h : DescribesParam d p r)
    (h' : DescribesParam d p r') : r = r' := by
  obtain ⟨name, location, property⟩ := r
  obtain ⟨name', location', property'⟩ := r'
  obtain ⟨q, hq, hp⟩ := h.property
  obtain ⟨q', hq', hp'⟩ := h'.property
  obtain rfl : name = name' := h.name.trans h'.name.symm
  obtain rfl : location = location' := Option.some.inj (h.location.symm.trans h'.location)
  obtain rfl := hq.unique hq'
  obtain rfl : property = property' := hp.trans hp'.symm
  rfl

theorem Supported.unique {s : Document.SecurityScheme} {t t' : Security} (h : Supported s t)
    (h' : Supported s t') : t = t' := by
  cases h with
  | bearer ht =>
      cases h' with
      | bearer => rfl
      | header ht' => exact absurd (ht.symm.trans ht') (by decide)
  | header ht _ hn =>
      cases h' with
      | bearer ht' => exact absurd (ht.symm.trans ht') (by decide)
      | header _ _ hn' => rw [Option.some.inj (hn.symm.trans hn')]

theorem Secured.unique {s? t? : Option Security} (h : Secured d od s?) (h' : Secured d od t?) :
    s? = t? := by
  cases h with
  | unrestricted hr =>
      cases h' with
      | unrestricted => rfl
      | unnamed => rfl
      | scheme hr' => cases hr.symm.trans hr'
  | unnamed hr =>
      cases h' with
      | unrestricted => rfl
      | unnamed => rfl
      | scheme hr' => cases hr.symm.trans hr'
  | scheme hr hd hs =>
      cases h' with
      | unrestricted hr' => cases hr.symm.trans hr'
      | unnamed hr' => cases hr.symm.trans hr'
      | scheme hr' hd' hs' =>
          cases hr.symm.trans hr'
          obtain rfl := Option.some.inj (hd.symm.trans hd')
          rw [hs.unique hs']

/-- An operation has to have one list of parameters only. -/
theorem Merged.unique {ps ps' : List Param} (h : Merged d item od ps) (h' : Merged d item od ps') :
    ps = ps' := by
  obtain ⟨scheme?, declared, described, hs, hd, hr, rfl⟩ := h
  obtain ⟨scheme?', declared', described', hs', hd', hr', rfl⟩ := h'
  obtain rfl := hs.unique hs'
  obtain rfl : declared = declared' := by
    have hsame := forall₂_of_common hd hd' fun _ _ _ hp hp' => hp.unique hp'
    rwa [List.forall₂_eq_eq_eq] at hsame
  obtain rfl : described = described' := by
    have hsame := forall₂_of_common (T := Eq) hr hr' fun k r r' h h' => by
      obtain ⟨p, hp, hr⟩ := h
      obtain ⟨p', hp', hr'⟩ := h'
      obtain rfl := Option.some.inj (hp.symm.trans hp')
      exact hr.unique hr'
    rwa [List.forall₂_eq_eq_eq] at hsame
  rfl

end Unique

/-! ## Scalars -/

section Scalars

variable {d : Document} {table : RefTable} {s : Schema} {context name : String} {t : Descriptor}

/-- A chain of a settled table that ends in a scalar goes along pointers of the document. -/
theorem isScalar_of_chain (hs : Settled d table) {u : Descriptor} {ps : List String} {q : Primitive}
    (hc : table.Chain t ps u) (hu : u = .primitive q) (h : shapeOf? s context = some t) :
    IsScalar d s q := by
  induction hc generalizing s context with
  | here =>
      rcases shapeOf?_cases h with
        ⟨_, -, rfl⟩ | ⟨hr, hcomp, hq⟩ | ⟨_, _, -, rfl, -⟩ | ⟨_, -, rfl⟩
      · cases hu
      · exact .own hr hcomp (hu ▸ hq)
      · cases hu
      · cases hu
  | @step pointer v _ _ hg hc ih =>
      have href : s.ref = some pointer := by
        rcases shapeOf?_cases h with
          ⟨_, hr, he⟩ | ⟨-, -, hq⟩ | ⟨_, _, -, he, -⟩ | ⟨_, -, he⟩
        · rw [hr, Descriptor.ref.inj he]
        · have hnone := pointers_scalarOf? hq
          simp at hnone
        · cases he
        · cases he
      obtain ⟨s', name, hs', -, hnamed⟩ := expansion?_eq_some_iff.1 (hs.get? hg)
      -- Only what has no name of its own can end in a scalar.
      rcases namedShape?_cases hnamed with hshape | ⟨_, _, rfl, -⟩ | ⟨_, -, rfl⟩
      · exact .behind href hs' (ih hu hshape)
      · cases hc
        cases hu
      · cases hc
        cases hu

end Scalars

/-! ## Runs -/

section Runs

variable {d : Document} {operationId context : String} {σ σ' : Progress} {item : Document.PathItem}
  {od : Document.Operation}

theorem run_scalar {s? : Option Schema} {q : Primitive} (hσ : Settled d σ.table)
    (h : (primitiveOf? d s? context).run σ = .ok (some q, σ')) :
    Settled d σ'.table ∧ HasScalar d s? q := by
  obtain ⟨_, -, hv⟩ :=
    (Steady.primitiveOf? s? context).visit_of_run hσ (List.nil_subset _) h
  obtain ⟨-, hq⟩ := run_primitiveOf? h
  refine ⟨hσ.visit hv, ?_⟩
  cases s? with
  | none => exact hq
  | some s =>
      obtain ⟨t, ht, hr⟩ := hq
      obtain ⟨ps, hc⟩ := RefTable.resolve?_eq_some_iff.1 hr
      exact isScalar_of_chain (hσ.visit hv) hc rfl ht

theorem run_parameter {p : Document.Parameter} {r : Param} (hσ : Settled d σ.table)
    (h : (parameter d operationId p).run σ = .ok (r, σ')) :
    Settled d σ'.table ∧ DescribesParam d p r := by
  unfold parameter at h
  obtain ⟨location, σ₁, hl, h⟩ := run_bind_eq_ok.1 h
  obtain ⟨hlocation, rfl⟩ := run_orRefuse_eq_ok.1 hl
  obtain ⟨q?, σ₂, hq, h⟩ := run_bind_eq_ok.1 h
  obtain ⟨q, σ₃, hsome, h⟩ := run_bind_eq_ok.1 h
  obtain ⟨rfl, rfl⟩ := run_orRefuse_eq_ok.1 hsome
  obtain ⟨rfl, rfl⟩ := run_pure_eq_ok.1 h
  obtain ⟨hs, hscalar⟩ := run_scalar hσ hq
  exact ⟨hs, rfl, hlocation, q, hscalar, rfl⟩

theorem declares_of_followFrom {origin : String} {steps : Nat} {e : ParameterEntry}
    {p : Document.Parameter} (h : followFrom d origin steps e = .ok p) : Declares d e p := by
  induction steps generalizing e with
  | zero => cases h
  | succ steps ih =>
      cases e with
      | inline p' =>
          obtain rfl := Except.ok.inj h
          exact .inline _
      | ref pointer =>
          rw [followFrom] at h
          split at h
          · cases h
          · rename_i e he
            exact .ref he (ih h)

theorem mergeParameters_eq (ps : List Document.Parameter) :
    mergeParameters ps = Assoc.putAll [] (ps.map fun p => (p.key, p)) := by
  rw [Assoc.putAll, List.foldl_map]
  rfl

/-- The declarations are merged, and every one that is left becomes a parameter. -/
theorem run_parameters {rs : List Param} (hσ : Settled d σ.table)
    (h : (parameters d operationId item od).run σ = .ok (rs, σ')) :
    Settled d σ'.table ∧ ∃ declared,
      List.Forall₂ (Declares d) (item.parameters ++ od.parameters) declared ∧
      List.Forall₂ (fun k r => ∃ p, Assoc.latest? (declared.map fun p => (p.key, p)) k = some p ∧
        DescribesParam d p r) (declared.map (·.key)).eraseDups rs := by
  obtain ⟨declared, σ₁, hdeclared, h⟩ := run_bind_eq_ok.1 h
  obtain ⟨rfl, hfollowed⟩ := run_mapM (I := (σ = ·)) (R := Declares d)
    (fun e p σ₁ σ₂ hσ₁ hr => by
      obtain ⟨hp, rfl⟩ := run_lift_eq_ok.1 hr
      exact ⟨hσ₁, declares_of_followFrom hp⟩) rfl hdeclared
  obtain ⟨hs, hdescribed⟩ := run_mapM (I := fun σ => Settled d σ.table)
    (R := fun e r => DescribesParam d e.2 r)
    (fun e r σ₁ σ₂ hσ₁ hr => run_parameter hσ₁ hr) hσ h
  refine ⟨hs, declared, hfollowed, ?_⟩
  have hkeys : (declared.map (·.key)).eraseDups = (mergeParameters declared).map Prod.fst := by
    rw [mergeParameters_eq, Assoc.keys_putAll, List.map_map]
    rfl
  rw [hkeys, List.forall₂_map_left_iff]
  refine forall₂_imp_mem hdescribed fun e r he _ hr => ⟨e.2, ?_, hr⟩
  rw [mergeParameters_eq] at he
  exact Assoc.latest?_of_mem_putAll he

theorem supported_of_schemeOf {name : String} {declared : Document.SecurityScheme} {s : Security}
    (h : schemeOf name declared = .ok s) : Supported declared s := by
  unfold schemeOf at h
  split at h
  · rename_i ht
    split at h
    · rename_i hb
      obtain rfl := Except.ok.inj h
      obtain ⟨text, hscheme, hsame⟩ := (Option.any_eq_true _ _).1 hb
      exact .bearer ht hscheme hsame
    · cases h
  split at h
  · rename_i ht
    split at h
    · rename_i hl hn
      obtain rfl := Except.ok.inj h
      exact .header ht hl hn
    · cases h
  · cases h

theorem secured_of_security {s? : Option Security} (h : security d od = .ok s?) :
    Secured d od s? := by
  have hrequired : requirement? d od = (requirements d od).head? := by
    unfold requirement? requirements
    cases od.security <;> rfl
  unfold security at h
  rw [hrequired] at h
  cases hr : requirements d od with
  | nil =>
      rw [hr] at h
      obtain rfl := Except.ok.inj h
      exact .unrestricted hr
  | cons required rest =>
      rw [hr] at h
      cases required with
      | nil =>
          obtain rfl := Except.ok.inj h
          exact .unnamed hr
      | cons entry more =>
          obtain ⟨name, scopes⟩ := entry
          simp only [List.head?_cons, Option.bind_some] at h
          split at h
          · cases h
          · rename_i declared hdeclared
            cases hs : schemeOf name declared with
            | error e =>
                rw [hs] at h
                cases h
            | ok s =>
                rw [hs] at h
                obtain rfl := Except.ok.inj h
                exact .scheme hr hdeclared (supported_of_schemeOf hs)

theorem run_merged {path : String} {method : Method} {o : Operation} (hσ : Settled d σ.table)
    (h : (operation d path method item od).run σ = .ok (o, σ')) : Merged d item od o.params := by
  obtain ⟨scheme?, described, σ₁, hsecurity, hparams, hps, -⟩ := run_operation_params h
  obtain ⟨-, declared, hdeclared, hdescribed⟩ := run_parameters hσ hparams
  exact ⟨scheme?, declared, described, secured_of_security hsecurity, hdeclared, hdescribed, hps⟩

theorem settled_of_run_endpoint {e : Endpoint} {o : Operation} (hσ : Settled d σ.table)
    (h : (endpoint d e).run σ = .ok (o, σ')) : Settled d σ'.table := by
  obtain ⟨_, -, hv⟩ :=
    (Steady.operation e.1 e.2.1 e.2.2.1 e.2.2.2).visit_of_run hσ (List.nil_subset _) h
  exact hσ.visit hv

end Runs

/-! ## What follows for merged parameters -/

section Merged

variable {d : Document} {item : Document.PathItem} {od : Document.Operation} {ps : List Param}

theorem key_of_latest? {declared : List Document.Parameter} {k : String × String}
    {p : Document.Parameter} (h : Assoc.latest? (declared.map fun p => (p.key, p)) k = some p) :
    p.key = k := by
  obtain ⟨before, after, he, -⟩ := List.lookup_eq_some_iff.1 h
  have hmem : (k, p) ∈ declared.map fun p => (p.key, p) := by
    rw [← List.mem_reverse, he]
    simp
  obtain ⟨p', -, hp'⟩ := List.mem_map.1 hmem
  obtain ⟨hk, rfl⟩ := Prod.mk.inj hp'
  exact hk

/-- No two of the parameters have the same name and place. -/
theorem Merged.nodup (h : Merged d item od ps) : (ps.map fun r => (r.name, r.location)).Nodup := by
  obtain ⟨scheme?, declared, described, -, -, hdescribed, rfl⟩ := h
  have hkeys : (declared.map (·.key)).eraseDups =
      (described.map fun r => (r.name, r.location)).map fun k => (k.1, k.2.name) := by
    rw [List.map_map, ← List.forall₂_eq_eq_eq, List.forall₂_map_right_iff]
    refine hdescribed.imp fun k r ⟨p, hp, hr⟩ => ?_
    rw [← key_of_latest? hp, Document.Parameter.key, ← hr.name,
      ← Location.name_of_ofName? hr.location]
    rfl
  have hnodup : (described.map fun r => (r.name, r.location)).Nodup := by
    refine List.Nodup.of_map (fun k => (k.1, k.2.name)) ?_
    rw [← hkeys]
    exact Assoc.nodup_eraseDups _
  have hkept := hnodup.sublist
    ((List.filter_sublist (p := fun r => !isSecurityHeader scheme? r)).map _)
  cases scheme? with
  | none => exact hkept
  | some s =>
      refine List.nodup_cons.2 ⟨fun hm => ?_, hkept⟩
      obtain ⟨r, hr, he⟩ := List.mem_map.1 hm
      obtain ⟨hname, hlocation⟩ := Prod.mk.inj he
      have hfree := (List.mem_filter.1 hr).2
      rw [isSecurityHeader, Option.any_some, hname, hlocation] at hfree
      simp [securityParam, Text.sameIgnoringCase] at hfree

/-- The header of the security scheme comes first. -/
theorem Merged.head (h : Merged d item od ps) {s : Security} (hs : Secured d od (some s)) :
    ps.head? = some (securityParam s) := by
  obtain ⟨scheme?, _, _, hs', -, -, rfl⟩ := h
  obtain rfl := hs.unique hs'
  rfl

theorem declared_of_undeclared? {path name : String} (h : undeclared? path ps = none)
    (hname : name ∈ Template.params path) : ∃ r ∈ ps, r.location = .path ∧ r.name = name := by
  have hany := List.find?_eq_none.1 h name hname
  obtain ⟨r, hr, hp⟩ : ∃ r ∈ ps, (r.location == .path && r.name == name) = true := by
    simpa using hany
  exact ⟨r, hr, by simpa using hp⟩

end Merged

/-! ## A document with several declarations of a parameter -/

section Host

def keyScheme : Document.SecurityScheme where
  type := "apiKey"
  scheme := none
  name := some "X-Key"
  location := some "header"
  bearerFormat := none

/-- A parameter that is a text and need not be given. -/
def textParameter (name location : String) : Document.Parameter where
  name
  location
  required := false
  schema := none
  description := none

/-- An operation that declares a parameter of its path anew, and the header of its scheme in other
capitals. -/
def showHost : Document.Operation where
  operationId := some "showHost"
  parameters := [.inline (queryNumber "limit"), .inline (textParameter "x-key" "header")]
  responses := [("200", emptyResponse)]

def hostItem : Document.PathItem where
  get := some showHost
  parameters := [.ref "#/components/parameters/limit", .inline (textParameter "host" "path")]

def keyedDocument : Document where
  paths := [("/hosts/\x7bhost\x7d", hostItem)]
  components := {
    parameters := [("limit", .inline (textParameter "limit" "query"))]
    securitySchemes := [("key", keyScheme)] }
  security := some [[("key", [])]]

def textParam (name : String) (location : Location) : Param where
  name
  location
  property := { name, type := .primitive .string, required := location == .path }

def shownHost : Operation where
  path := "/hosts/\x7bhost\x7d"
  method := .get
  operationId := "showHost"
  summary := none
  params := [securityParam (.header "X-Key"), queryParam "limit", textParam "host" .path]
  requestBody := none
  responseBody := {
    className := "ShowHostResponse"
    variants := [(.code 200, { name := "Ok", headers := none, payload := .none })] }

theorem run_shownHost :
    (operation keyedDocument "/hosts/\x7bhost\x7d" .get hostItem showHost).run {} =
      .ok (shownHost, {}) := by
  have hlimit : (parameter keyedDocument "showHost" (queryNumber "limit")).run {} =
      .ok (queryParam "limit", {}) := run_parameter_scalar rfl rfl rfl rfl rfl
  have hdeclared : (parameters keyedDocument "showHost" hostItem showHost).run {} =
      .ok ([queryParam "limit", textParam "host" .path, textParam "x-key" .header], {}) := by
    refine run_bind_eq_ok.2 ⟨[textParameter "limit" "query", textParameter "host" "path",
      queryNumber "limit", textParameter "x-key" "header"], {}, rfl, ?_⟩
    have hmerged : mergeParameters [textParameter "limit" "query", textParameter "host" "path",
        queryNumber "limit", textParameter "x-key" "header"] =
      [(("limit", "query"), queryNumber "limit"), (("host", "path"), textParameter "host" "path"),
        (("x-key", "header"), textParameter "x-key" "header")] := rfl
    rw [hmerged]
    exact run_mapM_cons hlimit rfl
  have hsecurity : security keyedDocument showHost = .ok (some (.header "X-Key")) := rfl
  exact run_operation_of rfl rfl hsecurity hdeclared rfl rfl (run_requestBody_none rfl) rfl

end Host

/-! ## Parameters of operations -/

section Operations

variable {d : Document} {σ σ' : Progress}

/-- Every operation of a document that is resolved has the parameters that it has to have. -/
theorem resolve_params {namePrefix : String} {m : Metadata} {ws : List Warning}
    (h : d.resolve namePrefix = .ok (m, ws)) :
    List.Forall₂ (fun e o => Merged d e.2.2.1 e.2.2.2 o.params) (operationsOf d) m.operations := by
  obtain ⟨name, os, σ, -, hos, rfl, -⟩ := resolve_eq_ok_iff.1 h
  obtain ⟨-, hmerged⟩ := run_mapM (I := fun σ => Settled d σ.table)
    (R := fun e o => Merged d e.2.2.1 e.2.2.2 o.params)
    (fun e o σ σ' hσ hr => ⟨settled_of_run_endpoint hσ hr, run_merged hσ hr⟩) (.empty d) hos
  exact hmerged

end Operations

end Resolve
end ApiContract
