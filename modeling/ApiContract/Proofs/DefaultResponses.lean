import ApiContract.Proofs.TypeAgreement

/-!
# Default responses

**Input:** an operation with a default response whose JSON body stands behind a pointer, and of
which everything else is resolved (`DefaultCase`).

The status of a default response is taken from the field `code` of its body, which has to be a
number that is always there.  A generated record has such a field if a property of this name is
required and stands for an integer, be it behind pointers (`IsStatus`).  Resolution accepts the
response only if the type of the property is written in place.

**Results:**

* `scalarField_iff`: when a field of a generated record is a number that is always there;
* `responseBody_default`: when the default response is accepted, and with what the operation is
  refused otherwise;
* `default_loses_status`: a status that is a pointer to an integer is not seen.
-/

namespace ApiContract

/-! ## Fields that hold a scalar -/

namespace Emit

section Types

variable {d : Document} {refs : RefTable} {t : Descriptor} {p : Property} {q : Primitive}
    {hops : Nat}

theorem typeWithin_eq_scalar_iff (ht : t.pointer? = none) :
    typeWithin refs hops t = .ok (.scalar q) ↔ t = .primitive q := by
  cases t with
  | ref pointer => simp [Descriptor.pointer?] at ht
  | array name? e =>
      cases name? with
      | some name => simp [typeWithin]
      | none =>
          rw [typeWithin]
          cases typeWithin refs hops e <;> simp [Except.map]
  | object name? ps =>
      cases name? with
      | some name => simp [typeWithin]
      | none =>
          rw [typeWithin]
          split <;> simp
  | _ => simp [typeWithin]

/-- A type is a scalar if the descriptor stands for this scalar. -/
theorem typeOf_eq_scalar_iff :
    typeOf refs t = .ok (.scalar q) ↔ refs.resolve? t = some (.primitive q) := by
  refine ⟨fun h => ?_, typeOf_eq_scalar⟩
  rcases typeOf_eq refs t with ⟨u, hops, hu, he⟩ | ⟨-, e, he⟩
  · rw [he, typeWithin_eq_scalar_iff (pointer?_of_resolve? hu)] at h
    rw [hu, h]
  · rw [he] at h
    cases h

/-- A field holds a scalar, neither boxed nor optional, if its property is required and stands for
this scalar. -/
theorem scalarField_iff (hs : Resolve.Settled d refs) :
    fieldType refs p = .ok (.scalar q) ↔
      p.required = true ∧ refs.resolve? p.type = some (.primitive q) := by
  constructor
  · intro h
    obtain ⟨t, ht, h⟩ := bind_eq_ok.1 h
    have hfield := Except.ok.inj h
    cases hrequired : p.required with
    | false => simp [hrequired] at hfield
    | true =>
        cases hcycle : closesCycle refs p.type with
        | true => simp [hrequired, hcycle] at hfield
        | false =>
            simp only [hrequired, hcycle, if_true, Bool.false_eq_true, if_false] at hfield
            rw [hfield] at ht
            exact ⟨rfl, typeOf_eq_scalar_iff.1 ht⟩
  · rintro ⟨hrequired, ht⟩
    rw [fieldType_scalar hs ht, hrequired]
    rfl

end Types

end Emit

namespace Resolve

open Document (Schema)

/-! ## The status in a body -/

/-- A property gives the status: it is called `code`, is required and stands for an integer. -/
structure IsStatus (table : RefTable) (p : Property) : Prop where
  name : p.name = "code"
  required : p.required = true
  integer : ∃ q, (q = .int ∨ q = .int64) ∧ table.resolve? p.type = some (.primitive q)

/-- What a pointer stands for is a record with a property that gives the status. -/
def CarriesStatus (table : RefTable) (pointer : String) : Prop :=
  ∃ name? ps, table.resolve? (.ref pointer) = some (.object name? ps) ∧ ∃ p ∈ ps, IsStatus table p

/-- The type of this property is no pointer. -/
def ShowsStatus (table : RefTable) (pointer : String) : Prop :=
  ∃ name? ps, table.resolve? (.ref pointer) = some (.object name? ps) ∧
    ∃ p ∈ ps, IsStatus table p ∧ p.type.pointer? = none

section Status

variable {d : Document} {table : RefTable} {p : Property} {pointer : String}

/-- The property makes a field that holds an integer, neither boxed nor optional. -/
theorem isStatus_iff (hs : Settled d table) :
    IsStatus table p ↔
      p.name = "code" ∧ ∃ q, (q = .int ∨ q = .int64) ∧
        Emit.fieldType table p = .ok (.scalar q) := by
  simp only [Emit.scalarField_iff hs]
  constructor
  · rintro ⟨hname, hrequired, q, hq, ht⟩
    exact ⟨hname, q, hq, hrequired, ht⟩
  · rintro ⟨hname, q, hq, hrequired, ht⟩
    exact ⟨hname, hrequired, q, hq, ht⟩

/-- What is asked of a property is whether its type is an integer in place. -/
theorem isCode_iff : isCode p = true ↔ IsStatus table p ∧ p.type.pointer? = none := by
  simp only [isCode, Bool.and_eq_true, Bool.or_eq_true, beq_iff_eq]
  constructor
  · rintro ⟨⟨hname, hrequired⟩, htype⟩
    obtain ⟨q, hq, ht⟩ : ∃ q, (q = .int ∨ q = .int64) ∧ p.type = .primitive q := by
      rcases htype with ht | ht
      · exact ⟨.int, Or.inl rfl, ht⟩
      · exact ⟨.int64, Or.inr rfl, ht⟩
    have hplace : p.type.pointer? = none := by
      rw [ht]
      rfl
    refine ⟨⟨hname, hrequired, q, hq, ?_⟩, hplace⟩
    rw [Emit.resolve?_of_pointer?_eq_none hplace, ht]
  · rintro ⟨⟨hname, hrequired, q, hq, ht⟩, hplace⟩
    rw [Emit.resolve?_of_pointer?_eq_none hplace] at ht
    refine ⟨⟨hname, hrequired⟩, ?_⟩
    rcases hq with rfl | rfl
    · exact Or.inl (Option.some.inj ht)
    · exact Or.inr (Option.some.inj ht)

theorem any_hasCode_iff :
    (table.resolve? (.ref pointer)).any hasCode = true ↔ ShowsStatus table pointer := by
  simp only [Option.any_eq_true]
  constructor
  · rintro ⟨u, hu, hcode⟩
    cases u with
    | object name? ps =>
        obtain ⟨p, hp, hcode⟩ := List.any_eq_true.1 hcode
        exact ⟨name?, ps, hu, p, hp, isCode_iff.1 hcode⟩
    | _ => cases hcode
  · rintro ⟨name?, ps, hu, p, hp, hstatus⟩
    exact ⟨_, hu, List.any_eq_true.2 ⟨p, hp, isCode_iff.2 hstatus⟩⟩

/-- If the properties called `code` have their types in place, the status that there is is seen. -/
theorem showsStatus_iff_of_place
    (h : ∀ name? ps, table.resolve? (.ref pointer) = some (.object name? ps) →
      ∀ p ∈ ps, p.name = "code" → p.type.pointer? = none) :
    ShowsStatus table pointer ↔ CarriesStatus table pointer := by
  constructor
  · rintro ⟨name?, ps, hu, p, hp, hstatus, -⟩
    exact ⟨name?, ps, hu, p, hp, hstatus⟩
  · rintro ⟨name?, ps, hu, p, hp, hstatus⟩
    exact ⟨name?, ps, hu, p, hp, hstatus, h name? ps hu p hp hstatus.name⟩

/-- A body with the status names its response. -/
theorem ShowsStatus.namesResponse (h : ShowsStatus table pointer) :
    (table.resolve? (.ref pointer)).any namesResponse = true := by
  obtain ⟨name?, ps, hu, -⟩ := h
  rw [hu]
  rfl

end Status

/-! ## Runs -/

section Runs

variable {d : Document} {operationId className pointer name : String} {status : Status} {s : Schema}
  {r : Document.Response} {σ σ' σ₁ : Progress}

/-- The responses in front are resolved first. -/
theorem run_responseVariants_append {before after : List (String × Document.Response)}
    {done done' : List (Status × Variant)}
    (h : (responseVariants d operationId className done before).run σ = .ok (done', σ')) :
    (responseVariants d operationId className done (before ++ after)).run σ =
      (responseVariants d operationId className done' after).run σ' := by
  induction before generalizing σ done with
  | nil =>
      obtain ⟨rfl, rfl⟩ := run_pure_eq_ok.1 h
      rfl
  | cons e rest ih =>
      obtain ⟨text, r⟩ := e
      rw [responseVariants] at h
      rw [List.cons_append, responseVariants]
      obtain ⟨status, σ₁, hstatus, h⟩ := run_bind_eq_ok.1 h
      obtain ⟨v, σ₂, hv, h⟩ := run_bind_eq_ok.1 h
      rw [run_bind_of_ok hstatus, run_bind_of_ok hv, run_get_bind]
      rw [run_get_bind] at h
      dsimp only at h ⊢
      split at h
      · rw [run_bind_of_error (run_refuse _ _)] at h
        cases h
      · rename_i hcode
        rw [if_neg hcode]
        split at h
        · rw [run_bind_of_error (run_refuse _ _)] at h
          cases h
        · rename_i hfree
          rw [if_neg hfree]
          exact ih h

theorem run_default_text (operationId : String) (σ : Progress) :
    (orRefuse (.unsupportedStatus "default" operationId) (Status.ofName? "default")).run σ =
      .ok (.default, σ) :=
  rfl

/-- Any other body is named by the status, which may have no name. -/
theorem run_jsonBody_of_unnamed (hr : s.ref = some pointer)
    (hrun : (reference d [] pointer).run σ = .ok (.ref pointer, σ'))
    (hnames : (σ'.table.resolve? (.ref pointer)).any namesResponse = false)
    (hstatus : statusName? status = none) :
    (jsonBody d operationId className status s).run σ =
      .error (.unmappedStatus status.name operationId) := by
  have hrefused : (statusName operationId status).run σ' =
      .error (.unmappedStatus status.name operationId) := by
    rw [statusName, hstatus]
    rfl
  rw [jsonBody, hr]
  dsimp only
  rw [run_bind_of_ok hrun, run_get_bind, if_neg (Bool.eq_false_iff.1 hnames)]
  exact run_bind_of_error hrefused

end Runs

/-! ## Operations with a default response -/

/-- An operation with a default response whose JSON body stands behind a pointer.  Everything else
is resolved: the responses before and after, the schema behind the pointer, the name and the headers
of the response. -/
structure DefaultCase (d : Document) (operationId : String) (σ : Progress)
    (o : Document.Operation) where
  /-- The type name of the operation. -/
  opName : String
  opName_eq : Naming.typeName? operationId = some opName
  /-- The default response, and the responses around it. -/
  before : List (String × Document.Response)
  response : Document.Response
  after : List (String × Document.Response)
  responses_eq : o.responses = before ++ ("default", response) :: after
  /-- The pointer of its first JSON content. -/
  pointer : String
  pointer_eq : ((jsonContent? response.content).bind (·.schema)).bind (·.ref) = some pointer
  /-- What the responses before become. -/
  done : List (Status × Variant)
  σ₁ : Progress
  run_before : (responseVariants d operationId (opName ++ "Response") [] before).run σ =
    .ok (done, σ₁)
  /-- The state with the schema behind the pointer. -/
  σ₂ : Progress
  run_body : (reference d [] pointer).run σ₁ = .ok (.ref pointer, σ₂)
  /-- The name of the response, which no other has. -/
  name : String
  name_eq : Naming.typeName? (Naming.simpleName pointer) = some name
  name_free : ∀ e ∈ done, e.2.name ≠ name
  /-- The headers of the response. -/
  headers : Option Descriptor
  σ₃ : Progress
  run_headers : (responseHeaders d operationId (opName ++ "Response") name response).run σ₂ =
    .ok (headers, σ₃)
  /-- What all responses become. -/
  all : List (Status × Variant)
  last : Progress
  run_after : (responseVariants d operationId (opName ++ "Response") (Assoc.put .default
    { name, headers, payload := .body (.ref pointer) false } done) after).run σ₃ = .ok (all, last)

namespace DefaultCase

variable {d : Document} {operationId : String} {σ : Progress} {o : Document.Operation}

/-- What the default response becomes. -/
def variant (c : DefaultCase d operationId σ o) : Variant where
  name := c.name
  headers := c.headers
  payload := .body (.ref c.pointer) false

/-- What the responses of the operation become. -/
def result (c : DefaultCase d operationId σ o) : ResponseBody where
  className := c.opName ++ "Response"
  variants := c.all

/-! ### States -/

theorem settled_before (c : DefaultCase d operationId σ o) (hs : Settled d σ.table) :
    Settled d c.σ₁.table := by
  obtain ⟨_, -, hv⟩ := (Steady.responseVariants c.before []).visit_of_run hs (List.nil_subset _)
    c.run_before
  exact hs.visit hv

/-- With the schema of the body the state is settled, and has this schema. -/
theorem settled_body (c : DefaultCase d operationId σ o) (hs : Settled d σ.table) :
    Settled d c.σ₂.table ∧ c.pointer ∈ c.σ₂.table.keys := by
  obtain ⟨-, hv⟩ := visit_reference c.run_body
  exact ⟨(c.settled_before hs).visit hv, Settled.subset_keys hv List.mem_cons_self⟩

theorem settled_headers (c : DefaultCase d operationId σ o) (hs : Settled d σ.table) :
    Settled d c.σ₃.table ∧ c.pointer ∈ c.σ₃.table.keys := by
  obtain ⟨hs₂, hp⟩ := c.settled_body hs
  obtain ⟨_, -, hv⟩ := (Steady.responseHeaders c.name c.response).visit_of_run hs₂
    (List.nil_subset _) c.run_headers
  exact ⟨hs₂.visit hv, hv.grows.mem_keys hp⟩

theorem settled_last (c : DefaultCase d operationId σ o) (hs : Settled d σ.table) :
    Settled d c.last.table ∧ c.pointer ∈ c.last.table.keys := by
  obtain ⟨hs₃, hp⟩ := c.settled_headers hs
  obtain ⟨_, -, hv⟩ := (Steady.responseVariants c.after _).visit_of_run hs₃
    (List.nil_subset _) c.run_after
  exact ⟨hs₃.visit hv, hv.grows.mem_keys hp⟩

/-- What the pointer stands for does not change once it is resolved. -/
theorem resolve?_eq (c : DefaultCase d operationId σ o) (hs : Settled d σ.table) :
    c.σ₂.table.resolve? (.ref c.pointer) = c.last.table.resolve? (.ref c.pointer) ∧
      c.σ₃.table.resolve? (.ref c.pointer) = c.last.table.resolve? (.ref c.pointer) := by
  obtain ⟨hs₂, hp₂⟩ := c.settled_body hs
  obtain ⟨hs₃, hp₃⟩ := c.settled_headers hs
  obtain ⟨hl, hp⟩ := c.settled_last hs
  have hmem : ∀ {t : RefTable}, c.pointer ∈ t.keys →
      (Descriptor.ref c.pointer).pointers ⊆ t.keys := by
    simp
  exact ⟨hs₂.resolve?_eq hl (hmem hp₂) (hmem hp), hs₃.resolve?_eq hl (hmem hp₃) (hmem hp)⟩

/-! ### Runs -/

section Outcomes

variable (c : DefaultCase d operationId σ o)

theorem run_response
    (hnames : (c.σ₂.table.resolve? (.ref c.pointer)).any namesResponse = true) :
    (responseVariant d operationId (c.opName ++ "Response") .default c.response).run c.σ₁ =
      .ok (c.variant, c.σ₃) := by
  obtain ⟨s, hschema, hpointer⟩ := Option.bind_eq_some_iff.1 c.pointer_eq
  exact run_responseVariant_json hschema
    (run_jsonBody_of_named hpointer c.run_body hnames c.name_eq) c.run_headers

theorem run_response_of_unnamed
    (hnames : (c.σ₂.table.resolve? (.ref c.pointer)).any namesResponse = false) :
    (responseVariant d operationId (c.opName ++ "Response") .default c.response).run c.σ₁ =
      .error (.unmappedStatus "default" operationId) := by
  obtain ⟨s, hschema, hpointer⟩ := Option.bind_eq_some_iff.1 c.pointer_eq
  rw [responseVariant, hschema]
  exact run_bind_of_error (run_jsonBody_of_unnamed hpointer c.run_body hnames rfl)

/-- What becomes of the operation depends on what becomes of the default response and those after
it. -/
theorem run_responseBody {r : Except ResolveError (List (Status × Variant) × Progress)}
    (h : (responseVariants d operationId (c.opName ++ "Response") c.done
      (("default", c.response) :: c.after)).run c.σ₁ = r) :
    (responseBody d operationId o).run σ =
      r.map fun vs => ({ className := c.opName ++ "Response", variants := vs.1 }, vs.2) := by
  have hname : (typeName operationId "operationId").run σ = .ok (c.opName, σ) :=
    run_typeName_eq_ok.2 ⟨c.opName_eq, rfl⟩
  have hall := (run_responseVariants_append c.run_before).trans h
  rw [← c.responses_eq] at hall
  rw [responseBody, run_bind_of_ok hname]
  cases r with
  | error e => exact run_bind_of_error hall
  | ok vs => exact run_bind_of_ok hall

/-- The default response is accepted or refused when it is resolved, before those after it. -/
theorem run_default
    (hnames : (c.σ₂.table.resolve? (.ref c.pointer)).any namesResponse = true) :
    (responseVariants d operationId (c.opName ++ "Response") c.done
        (("default", c.response) :: c.after)).run c.σ₁ =
      if hasStatus c.σ₃.table c.variant then .ok (c.all, c.last)
      else .error (.defaultWithoutCode operationId) := by
  have hfree : ¬ (c.done.any fun e => e.2.name == c.variant.name) = true := by
    rw [List.any_eq_true]
    rintro ⟨e, he, hname⟩
    exact c.name_free e he (beq_iff_eq.1 hname)
  rw [responseVariants, run_bind_of_ok (run_default_text operationId c.σ₁),
    run_bind_of_ok (c.run_response hnames), run_get_bind]
  dsimp only
  cases hstatus : hasStatus c.σ₃.table c.variant with
  | true =>
      rw [if_neg (by decide), if_neg hfree]
      exact c.run_after
  | false =>
      rw [if_pos (by decide)]
      exact run_bind_of_error (run_refuse _ _)

theorem run_default_of_unnamed
    (hnames : (c.σ₂.table.resolve? (.ref c.pointer)).any namesResponse = false) :
    (responseVariants d operationId (c.opName ++ "Response") c.done
        (("default", c.response) :: c.after)).run c.σ₁ =
      .error (.unmappedStatus "default" operationId) := by
  rw [responseVariants, run_bind_of_ok (run_default_text operationId c.σ₁)]
  exact run_bind_of_error (c.run_response_of_unnamed hnames)

end Outcomes

end DefaultCase

/-! ## Acceptance -/

section Acceptance

variable {d : Document} {operationId : String} {σ : Progress} {o : Document.Operation}

/-- A default response is accepted if and only if its body stands for a record with a required
property `code` whose type is an integer in place.  Otherwise the operation is refused because the
status cannot be taken from the record or array, or, if the body is neither, because the response
has no name.  A property gives the status, be its type in place or behind pointers, if and only if
it makes a field of the generated record that holds an integer, neither boxed nor optional. -/
theorem responseBody_default (hs : Settled d σ.table) (c : DefaultCase d operationId σ o) :
    ((responseBody d operationId o).run σ = .ok (c.result, c.last) ↔
        ShowsStatus c.last.table c.pointer) ∧
      (¬ ShowsStatus c.last.table c.pointer →
        (responseBody d operationId o).run σ =
          if (c.last.table.resolve? (.ref c.pointer)).any namesResponse then
            .error (.defaultWithoutCode operationId)
          else .error (.unmappedStatus "default" operationId)) ∧
      ((∀ name? ps, c.last.table.resolve? (.ref c.pointer) = some (.object name? ps) →
          ∀ p ∈ ps, p.name = "code" → p.type.pointer? = none) →
        ((responseBody d operationId o).run σ = .ok (c.result, c.last) ↔
          CarriesStatus c.last.table c.pointer)) ∧
      ∀ p, IsStatus c.last.table p ↔
        p.name = "code" ∧
          ∃ q, (q = .int ∨ q = .int64) ∧ Emit.fieldType c.last.table p = .ok (.scalar q) := by
  obtain ⟨hlast, -⟩ := c.settled_last hs
  obtain ⟨h₂, h₃⟩ := c.resolve?_eq hs
  have hstatus : hasStatus c.σ₃.table c.variant = true ↔ ShowsStatus c.last.table c.pointer := by
    rw [← any_hasCode_iff, ← h₃]
    rfl
  have haccept : ShowsStatus c.last.table c.pointer →
      (responseBody d operationId o).run σ = .ok (c.result, c.last) := by
    intro hshows
    have hnames := h₂ ▸ hshows.namesResponse
    have hrun := c.run_default hnames
    rw [if_pos (hstatus.2 hshows)] at hrun
    exact c.run_responseBody hrun
  have hrefuse : ¬ ShowsStatus c.last.table c.pointer →
      (responseBody d operationId o).run σ =
        if (c.last.table.resolve? (.ref c.pointer)).any namesResponse then
          .error (.defaultWithoutCode operationId)
        else .error (.unmappedStatus "default" operationId) := by
    intro hshows
    cases hnames : (c.last.table.resolve? (.ref c.pointer)).any namesResponse with
    | true =>
        have hrun := c.run_default (h₂ ▸ hnames)
        rw [if_neg (mt hstatus.1 hshows)] at hrun
        exact c.run_responseBody hrun
    | false => exact c.run_responseBody (c.run_default_of_unnamed (h₂ ▸ hnames))
  have hiff : (responseBody d operationId o).run σ = .ok (c.result, c.last) ↔
      ShowsStatus c.last.table c.pointer := by
    refine ⟨fun hrun => ?_, haccept⟩
    by_contra hshows
    rw [hrefuse hshows] at hrun
    split at hrun
    · cases hrun
    · cases hrun
  refine ⟨hiff, hrefuse, fun hplace => ?_, fun p => isStatus_iff hlast⟩
  rw [hiff, showsStatus_iff_of_place hplace]

/-- An operation whose only response with a body is the record of failures. -/
def readFault : Document.Operation where
  operationId := some "readFault"
  responses := [("204", emptyResponse), ("default", faultResponse)]

def noContent : Variant where
  name := "NoContent"
  headers := none
  payload := .none

def faultCase : DefaultCase hostDocument "readFault" {} readFault where
  opName := "ReadFault"
  opName_eq := rfl
  before := [("204", emptyResponse)]
  response := faultResponse
  after := []
  responses_eq := rfl
  pointer := faultPointer
  pointer_eq := rfl
  done := [(.code 204, noContent)]
  σ₁ := {}
  run_before := rfl
  σ₂ := hostProgress
  run_body := run_reference_fault
  name := "Fault"
  name_eq := rfl
  name_free := by decide
  headers := none
  σ₃ := hostProgress
  run_headers := rfl
  all := [(.code 204, noContent), (.default, hostFault)]
  last := hostProgress
  run_after := rfl

theorem responseBody_default_fault :
    (responseBody hostDocument "readFault" readFault).run {} = .ok (faultCase.result,
      hostProgress) :=
  (responseBody_default (Settled.empty hostDocument) faultCase).1.2
    ⟨some "Fault", _, rfl, _, List.mem_singleton.2 rfl, ⟨rfl, rfl, .int, Or.inl rfl, rfl⟩, rfl⟩

end Acceptance

/-! ## A status that is not seen -/

section Hidden

abbrev problemPointer : String :=
  "#/components/schemas/Problem"

abbrev numberPointer : String :=
  "#/components/schemas/Number"

/-- A record with a status, whose schema is an integer with a name. -/
def problem : Descriptor :=
  .object (some "Problem") [{ name := "code", type := .ref numberPointer, required := true }]

def problemResponse : Document.Response where
  description := none
  headers := []
  content := [("application/json", { schema := some { ref := some problemPointer } })]

def readProblem : Document.Operation where
  operationId := some "readProblem"
  responses := [("default", problemResponse)]

def problemDocument : Document where
  paths := [("/problem", { get := some readProblem })]
  components := {
    schemas := [
      ("Number", numberSchema),
      ("Problem", {
        type := some "object"
        properties := [("code", { ref := some numberPointer })]
        required := ["code"] })] }

def problemProgress : Progress where
  table := (RefTable.empty.insert numberPointer (.primitive .int)).insert problemPointer problem
  entered := [problemPointer, numberPointer]

theorem run_reference_problem :
    (reference problemDocument [] problemPointer).run {} = .ok (.ref problemPointer,
      problemProgress) := by
  have hnumber : (reference problemDocument [problemPointer] numberPointer).run
      { entered := [problemPointer] } =
        .ok (.ref numberPointer, {
          table := RefTable.empty.insert numberPointer (.primitive .int)
          entered := [problemPointer, numberPointer] }) := by
    refine (run_reference_eq_ok (by decide) (by decide)).2 ⟨rfl, numberSchema, "Number",
      .primitive .int, { entered := [problemPointer, numberPointer] }, rfl, rfl, ?_, rfl⟩
    exact run_named_scalar (by decide) (by decide) (by decide) rfl
  refine (run_reference_eq_ok (by decide) (by decide)).2
    ⟨rfl, _, "Problem", problem, {
      table := RefTable.empty.insert numberPointer (.primitive .int)
      entered := [problemPointer, numberPointer] }, rfl, rfl, ?_, rfl⟩
  refine run_named_record (by decide) (by decide) (by decide) ?_
  exact run_propertiesOf_cons (run_typeOf_ref rfl hnumber) run_propertiesOf_nil

def problemVariant : Variant where
  name := "Problem"
  headers := none
  payload := .body (.ref problemPointer) false

/-- The operation, were its default response accepted. -/
def problemCase : DefaultCase problemDocument "readProblem" {} readProblem where
  opName := "ReadProblem"
  opName_eq := rfl
  before := []
  response := problemResponse
  after := []
  responses_eq := rfl
  pointer := problemPointer
  pointer_eq := rfl
  done := []
  σ₁ := {}
  run_before := rfl
  σ₂ := problemProgress
  run_body := run_reference_problem
  name := "Problem"
  name_eq := rfl
  name_free := by decide
  headers := none
  σ₃ := problemProgress
  run_headers := rfl
  all := [(.default, problemVariant)]
  last := problemProgress
  run_after := rfl

/-- The status of a record is not seen where its type is a pointer to an integer, although the
record has the field from which a handler would take it. -/
theorem default_loses_status :
    CarriesStatus problemProgress.table problemPointer ∧
      (∃ p, problem = .object (some "Problem") [p] ∧
        Emit.fieldType problemProgress.table p = .ok (.scalar .int)) ∧
      (responseBody problemDocument "readProblem" readProblem).run {} =
        .error (.defaultWithoutCode "readProblem") := by
  have hint : problemProgress.table.resolve? (.ref numberPointer) = some (.primitive .int) := rfl
  refine ⟨⟨some "Problem", _, rfl, _, List.mem_singleton.2 rfl, rfl, rfl, .int, Or.inl rfl, hint⟩,
    ⟨_, rfl, ?_⟩, problemCase.run_responseBody (problemCase.run_default rfl)⟩
  exact (Emit.scalarField_iff (problemCase.settled_last (Settled.empty _)).1).2 ⟨rfl, hint⟩

end Hidden

end Resolve
end ApiContract
