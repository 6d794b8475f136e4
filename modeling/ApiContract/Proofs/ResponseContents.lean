import ApiContract.Proofs.Responses

/-!
# What responses carry

**Input:** a declared response, which may have contents in several media types, and headers.

By the rule for responses the JSON contents come first: the first of them that has a schema gives
the body.  Without one, a content that is not JSON and has the schema of binary texts in place makes
the response a file, and else nothing is carried.  Resolution asks other questions: whether the
first JSON content has a schema, and whether any content has no schema, or one of texts in place.

**Results:**

* `Carries`: a variant carries a body of the type of a schema, else a file, else nothing;
* `responseVariant_carries`: what the variant of every response carries, its headers, and when this
  is what the rule says;
* `response_loses_schema`: a JSON content without a schema may hide the one behind it.
-/

namespace ApiContract
namespace Resolve

open Document (Schema)

/-! ## Contents -/

/-- A declared content is JSON, whatever the letter case and the parameters of its media type. -/
def isJson (e : String × Document.MediaContent) : Bool :=
  essence e.1 == Media.json.mime

/-- The schema of the first JSON content that has one. -/
def jsonSchema? (content : Document.Content) : Option Schema :=
  (content.filter isJson).findSome? (·.2.schema)

/-- A content is not JSON, and its schema stands in place and is that of binary texts. -/
def isBinaryFile (e : String × Document.MediaContent) : Bool :=
  !isJson e && e.2.schema.any fun s => s.ref.isNone && s.isBinary

/-- A variant carries a body of the type of a schema, if there is one, else a file, if one is given,
else nothing. -/
def Carries (className : String) (schema? : Option Schema) (isFile : Bool) (v : Variant) : Prop :=
  match schema? with
  | some s => ∃ t, shapeOf? s (className ++ v.name ++ "Body") = some t ∧ v.payload = .body t false
  | none =>
    if isFile = true then v.name = "File" ∧ v.payload = .body .file true else v.payload = .none

section Contents

variable {content : Document.Content} {e : String × Document.MediaContent} {s : Schema}

theorem jsonSchema?_eq_none_iff :
    jsonSchema? content = none ↔ ∀ e ∈ content, isJson e = true → e.2.schema = none := by
  simp [jsonSchema?, List.findSome?_eq_none_iff]

/-- If the first JSON content has a schema, no other decides. -/
theorem jsonSchema?_of_jsonContent? (h : (jsonContent? content).bind (·.schema) = some s) :
    jsonSchema? content = some s := by
  obtain ⟨c, hc, hs⟩ := Option.bind_eq_some_iff.1 h
  obtain ⟨e, he, rfl⟩ := Option.map_eq_some_iff.1 hc
  have hfirst : (content.filter isJson).head? = some e := (List.head?_filter ..).trans he
  obtain ⟨rest, hrest⟩ := List.head?_eq_some_iff.1 hfirst
  rw [jsonSchema?, hrest, List.findSome?_cons, hs]

/-- A content with the schema of binary texts can be sent as a file. -/
theorem isBinaryContent_of_isBinaryFile (h : isBinaryFile e = true) :
    isBinaryContent e.2 = true := by
  obtain ⟨mime, ⟨schema⟩⟩ := e
  cases schema with
  | none => simp [isBinaryFile] at h
  | some s =>
      simp only [isBinaryFile, Option.any_some, Schema.isBinary, Bool.and_eq_true] at h
      simp only [isBinaryContent, Bool.and_eq_true]
      exact ⟨h.2.1, h.2.2.1⟩

end Contents

/-! ## The rule -/

section Rule

variable {content : Document.Content} {className : String} {s : Schema} {isFile isFile' : Bool}
  {v : Variant}

/-- With a schema it does not matter whether a file is given. -/
theorem carries_some :
    Carries className (some s) isFile v ↔
      ∃ t, shapeOf? s (className ++ v.name ++ "Body") = some t ∧ v.payload = .body t false :=
  Iff.rfl

theorem carries_file : Carries className none true v ↔
    v.name = "File" ∧ v.payload = .body .file true :=
  Iff.rfl

theorem carries_nothing : Carries className none false v ↔ v.payload = .none :=
  Iff.rfl

/-- What carries a file or nothing carries no body of the type of a schema. -/
theorem not_carries_some (h : Carries className none isFile v) :
    ¬ Carries className (some s) isFile' v := by
  rintro ⟨t, -, ht⟩
  cases isFile with
  | true =>
      rw [carries_file, ht] at h
      cases h.2
  | false =>
      rw [carries_nothing, ht] at h
      cases h

theorem carries_none_iff (h : Carries className none isFile v) :
    Carries className none isFile' v ↔ isFile = isFile' := by
  constructor
  · intro h'
    cases isFile <;> cases isFile' <;> simp_all [carries_file, carries_nothing]
  · rintro rfl
    exact h

/-- A content that is a binary file can be sent as a file. -/
theorem any_isBinaryContent_iff :
    (content.any fun e => isBinaryContent e.2) = content.any isBinaryFile ↔
      ((∃ e ∈ content, isBinaryContent e.2 = true) → ∃ e ∈ content, isBinaryFile e = true) := by
  rw [Bool.eq_iff_iff, List.any_eq_true, List.any_eq_true]
  refine ⟨Iff.mp, fun h => ⟨h, ?_⟩⟩
  rintro ⟨e, he, hb⟩
  exact ⟨e, he, isBinaryContent_of_isBinaryFile hb⟩

/-- What is carried follows the rule, unless a JSON content without a schema hides the schema of
another one, or, where there is no JSON schema, the only contents that are sent as a file are no
binary files. -/
theorem carries_rule_iff
    (h : Carries className ((jsonContent? content).bind (·.schema))
      (content.any fun e => isBinaryContent e.2) v) :
    Carries className (jsonSchema? content) (content.any isBinaryFile) v ↔
      ((∃ e ∈ content, isJson e = true ∧ e.2.schema ≠ none) →
          (jsonContent? content).bind (·.schema) ≠ none) ∧
        ((∀ e ∈ content, isJson e = true → e.2.schema = none) →
          (∃ e ∈ content, isBinaryContent e.2 = true) → ∃ e ∈ content, isBinaryFile e = true) := by
  have hsome : (∃ e ∈ content, isJson e = true ∧ e.2.schema ≠ none) ↔
      jsonSchema? content ≠ none := by
    simp only [ne_eq, jsonSchema?_eq_none_iff, not_forall, exists_prop]
  rw [hsome, ← jsonSchema?_eq_none_iff, ← any_isBinaryContent_iff]
  cases hfirst : (jsonContent? content).bind (·.schema) with
  | some s =>
      rw [hfirst] at h
      rw [jsonSchema?_of_jsonContent? hfirst]
      have hne : some s ≠ none := Option.some_ne_none s
      exact ⟨fun _ => ⟨fun _ => hne, fun hn => absurd hn hne⟩, fun _ =>
        carries_some.2 (carries_some.1 h)⟩
  | none =>
      rw [hfirst] at h
      cases jsonSchema? content with
      | some s =>
          -- The schema of a later JSON content is not looked at.
          have hne : some s ≠ none := Option.some_ne_none s
          exact ⟨fun hs => absurd hs (not_carries_some h), fun hc => absurd rfl (hc.1 hne)⟩
      | none =>
          rw [carries_none_iff h]
          exact ⟨fun he => ⟨fun hn => absurd rfl hn, fun _ => he⟩, fun hc => hc.2 rfl⟩

end Rule

/-! ## Responses that are resolved -/

section Runs

variable {d : Document} {operationId className : String} {status : Status} {r : Document.Response}
  {v : Variant} {σ σ' : Progress}

/-- A variant with a file has a fixed name. -/
theorem name_of_run_responseVariant
    (h : (responseVariant d operationId className status r).run σ = .ok (v, σ'))
    (hfile : v.payload = .body .file true) : v.name = "File" := by
  obtain ⟨σ₁, -, ⟨_, _, -, hpayload, -⟩ | ⟨-, -, ⟨-, -, hname⟩ | ⟨-, hpayload, -⟩⟩⟩ :=
    run_responseVariant_cases h
  · cases hfile.symm.trans hpayload
  · exact hname
  · cases hfile.symm.trans hpayload

theorem carries_of_run
    (h : (responseVariant d operationId className status r).run σ = .ok (v, σ')) :
    Carries className ((jsonContent? r.content).bind (·.schema))
      (r.content.any fun e => isBinaryContent e.2) v := by
  obtain ⟨-, hdescribes⟩ := run_responseVariant h
  have hpayload := hdescribes.payload
  split at hpayload
  · rename_i s hs
    rw [hs]
    exact hpayload
  · rename_i hs
    rw [hs]
    split at hpayload
    · rename_i hfile
      rw [hfile, carries_file]
      exact ⟨name_of_run_responseVariant h hpayload, hpayload⟩
    · rename_i hfile
      rw [Bool.eq_false_iff.2 hfile, carries_nothing]
      exact hpayload

/-- The variant of a response carries a JSON body of the type of the first JSON content's schema;
where this content has none, or is missing, a file if some content has no schema, or one of texts in
place, whatever its media type and format; else nothing.  It has a record with the declared headers,
if there are any.  This follows the rule for responses if and only if a JSON content with a schema
does not stand behind one without, and, where no JSON content has a schema, a content that can be
sent as a file comes with one that is a binary file. -/
theorem responseVariant_carries
    (h : (responseVariant d operationId className status r).run σ = .ok (v, σ')) :
    Carries className ((jsonContent? r.content).bind (·.schema))
        (r.content.any fun e => isBinaryContent e.2) v ∧
      ((r.headers = [] ∧ v.headers = none) ∨
        r.headers ≠ [] ∧ ∃ ps,
          v.headers = some (.object (some (className ++ v.name ++ "Headers")) ps) ∧
          List.Forall₂ (DescribesHeader σ'.table (className ++ v.name ++ "Headers")) r.headers ps) ∧
      (Carries className (jsonSchema? r.content) (r.content.any isBinaryFile) v ↔
        ((∃ e ∈ r.content, isJson e = true ∧ e.2.schema ≠ none) →
            (jsonContent? r.content).bind (·.schema) ≠ none) ∧
          ((∀ e ∈ r.content, isJson e = true → e.2.schema = none) →
            (∃ e ∈ r.content, isBinaryContent e.2 = true) →
              ∃ e ∈ r.content, isBinaryFile e = true)) := by
  obtain ⟨-, hdescribes⟩ := run_responseVariant h
  have hcarries := carries_of_run h
  exact ⟨hcarries, hdescribes.headers, carries_rule_iff hcarries⟩

/-- A response with a header, whose JSON content stands behind a binary file. -/
def pictureResponse : Document.Response where
  description := none
  headers := fileResponse.headers
  content := [
    ("image/png", { schema := some { type := some "string", format := some "binary" } }),
    ("Application/JSON; charset=utf-8", { schema := some { ref := some faultPointer } })]

/-- What the response becomes. -/
def pictureVariant : Variant where
  name := "Fault"
  headers := some (.object (some "ListHostsResponseFaultHeaders")
    [{ name := "X-Total", type := .primitive .int, required := true }])
  payload := .body (.ref faultPointer) false

theorem responseVariant_carries_picture :
    (responseVariant hostDocument "listHosts" "ListHostsResponse" .default pictureResponse).run {} =
        .ok (pictureVariant, hostProgress) ∧
      Carries "ListHostsResponse" (jsonSchema? pictureResponse.content)
        (pictureResponse.content.any isBinaryFile) pictureVariant := by
  have hbody : (jsonBody hostDocument "listHosts" "ListHostsResponse" .default
      { ref := some faultPointer }).run {} = .ok (("Fault", .ref faultPointer), hostProgress) :=
    run_jsonBody_of_named rfl run_reference_fault rfl rfl
  have hrun : (responseVariant hostDocument "listHosts" "ListHostsResponse" .default
      pictureResponse).run {} = .ok (pictureVariant, hostProgress) :=
    run_responseVariant_json rfl hbody (run_responseHeaders_scalar rfl rfl rfl rfl)
  refine ⟨hrun, (responseVariant_carries hrun).2.2.2 ⟨fun _ => Option.some_ne_none _,
    fun hnone => ?_⟩⟩
  have hjson := hnone _ (List.mem_cons_of_mem _ List.mem_cons_self) (by decide)
  exact absurd hjson (Option.some_ne_none _)

end Runs

/-! ## A schema that is not looked at -/

section Hidden

/-- A response with a record, which is declared for one of two JSON contents. -/
def petResponse : Document.Response where
  description := none
  headers := []
  content := [
    ("application/json", { schema := none }),
    ("application/json; charset=utf-8", {
      schema := some { ref := some "#/components/schemas/Pet" } })]

def readPet : Document.Operation where
  operationId := some "readPet"
  responses := [("200", petResponse)]

def petDocument : Document where
  paths := [("/pet", { get := some readPet })]
  components := {
    schemas := [("Pet", {
      type := some "object"
      properties := [("name", { type := some "string" })] })] }

/-- What the response becomes. -/
def petVariant : Variant where
  name := "File"
  headers := none
  payload := .body .file true

/-- A JSON content without a schema hides the schema of another one, and is itself sent as a
file. -/
theorem response_loses_schema :
    petDocument.resolve "Api" = .ok ({
        namePrefix := "Api"
        operations := [{
          path := "/pet"
          method := .get
          operationId := "readPet"
          summary := none
          params := []
          requestBody := none
          responseBody := {
            className := "ReadPetResponse"
            variants := [(.code 200, petVariant)] } }]
        refs := .empty }, []) ∧
      ¬ Carries "ReadPetResponse" (jsonSchema? petResponse.content)
        (petResponse.content.any isBinaryFile) petVariant := by
  have hschema : jsonSchema? petResponse.content =
      some { ref := some "#/components/schemas/Pet" } := rfl
  refine ⟨rfl, ?_⟩
  rw [hschema]
  rintro ⟨t, -, ht⟩
  cases ht

end Hidden

end Resolve
end ApiContract
