import ApiContract.Proofs.ContentTypes
import ApiContract.Proofs.Responses

/-!
# The request body of an operation

**Input:** the contents that a document declares for the request body of an operation, each under
its media type.

A content is kept if its media type is known and its schema is a pointer, and of several with the
same media type the first one stays.

**Results:**

* `run_requestBody`: a request body that is resolved has the contents that are kept;
* `mem_keys_keptContents_iff`: every media type of a content that is kept has a content;
* `resolve_reportDocument`: a document with a form, texts behind pointers and values that may be
  absent.
-/

namespace ApiContract
namespace Resolve

/-! ## Contents that are kept -/

/-- The content of a request body that a declared content becomes. -/
def kept? (e : String × Document.MediaContent) : Option (Media × Descriptor) :=
  (Media.ofMime? (essence e.1)).bind fun media =>
    (e.2.schema.bind (·.ref)).map fun pointer => (media, .ref pointer)

/-- A declared content is kept for a media type. -/
def Keeps (e : String × Document.MediaContent) (media : Media) : Prop :=
  Media.ofMime? (essence e.1) = some media ∧ (e.2.schema.bind (·.ref)).isSome = true

/-- Adds contents one after another. -/
def addContents (done : List (Media × Descriptor)) (es : List (Media × Descriptor)) :
    List (Media × Descriptor) :=
  es.foldl (fun all e => addContent e.1 e.2 all) done

def keptContents (content : Document.Content) : List (Media × Descriptor) :=
  addContents [] (content.filterMap kept?)

section Contents

variable {media : Media} {t : Descriptor} {done es : List (Media × Descriptor)}

theorem exists_kept?_iff {e : String × Document.MediaContent} :
    (∃ t, kept? e = some (media, t)) ↔ Keeps e media := by
  unfold kept? Keeps
  cases Media.ofMime? (essence e.1) <;> cases e.2.schema.bind (·.ref) <;> simp

theorem lookup_addContent (media' : Media) :
    (addContent media t done).lookup media' = (done ++ [(media, t)]).lookup media' := by
  unfold addContent
  split
  · rename_i htaken
    rw [List.lookup_append]
    by_cases hm : media' = media
    · obtain ⟨u, hu⟩ := Option.isSome_iff_exists.1 htaken
      rw [hm, hu, Option.some_or]
    · have hne : (media' == media) = false := by simpa using hm
      simp [List.lookup_cons, hne]
  · rfl

/-- Of the contents for a media type the first is kept. -/
theorem lookup_addContents (media : Media) :
    (addContents done es).lookup media = (done ++ es).lookup media := by
  induction es generalizing done with
  | nil => rw [List.append_nil]; rfl
  | cons e es ih =>
      have hstep : addContents done (e :: es) = addContents (addContent e.1 e.2 done) es := rfl
      rw [hstep, ih, List.lookup_append, lookup_addContent, ← List.lookup_append,
        List.append_assoc, List.singleton_append]

theorem nodup_addContent (h : (done.map Prod.fst).Nodup) :
    ((addContent media t done).map Prod.fst).Nodup := by
  unfold addContent
  split
  · exact h
  · rename_i hfree
    have hmem : media ∉ done.map Prod.fst :=
      Assoc.lookup_eq_none_iff_not_mem.1 (Option.not_isSome_iff_eq_none.1 hfree)
    rw [List.map_append, List.map_singleton, ← List.concat_eq_append, List.nodup_concat]
    exact ⟨hmem, h⟩

theorem nodup_addContents (h : (done.map Prod.fst).Nodup) :
    ((addContents done es).map Prod.fst).Nodup := by
  induction es generalizing done with
  | nil => exact h
  | cons e es ih => exact ih (nodup_addContent h)

theorem nodup_keptContents (content : Document.Content) :
    ((keptContents content).map Prod.fst).Nodup :=
  nodup_addContents List.nodup_nil

/-- There is a content for every media type for which one is kept. -/
theorem mem_keys_keptContents_iff {content : Document.Content} :
    media ∈ (keptContents content).map Prod.fst ↔ ∃ e ∈ content, Keeps e media := by
  have hlookup : (keptContents content).lookup media = (content.filterMap kept?).lookup media :=
    lookup_addContents media
  rw [← not_iff_not, ← Assoc.lookup_eq_none_iff_not_mem, hlookup,
    Assoc.lookup_eq_none_iff_not_mem, not_iff_not]
  simp only [List.mem_map, List.mem_filterMap]
  constructor
  · rintro ⟨⟨media, t⟩, ⟨e, he, hk⟩, rfl⟩
    exact ⟨e, he, exists_kept?_iff.1 ⟨t, hk⟩⟩
  · rintro ⟨e, he, hk⟩
    obtain ⟨t, ht⟩ := exists_kept?_iff.2 hk
    exact ⟨(media, t), ⟨e, he, ht⟩, rfl⟩

end Contents

/-! ## Runs -/

section Runs

variable {d : Document} {operationId : String} {σ σ' : Progress}

theorem run_warn_bind {β : Type} (w : Warning) (f : PUnit → Resolving β) (σ : Progress) :
    (warn w >>= f).run σ = (f ⟨⟩).run { σ with warnings := σ.warnings ++ [w] } :=
  rfl

theorem run_requestContents {content : Document.Content} {done all : List (Media × Descriptor)}
    (h : (requestContents d operationId done content).run σ = .ok (all, σ')) :
    all = addContents done (content.filterMap kept?) := by
  induction content generalizing σ done with
  | nil => exact (run_pure_eq_ok.1 h).1.symm
  | cons e rest ih =>
      obtain ⟨mime, c⟩ := e
      rw [requestContents] at h
      split at h
      · rename_i hm
        have hk : kept? (mime, c) = none := by simp [kept?, hm]
        rw [run_warn_bind] at h
        rw [List.filterMap_cons_none hk]
        exact ih h
      · rename_i media hm
        split at h
        · rename_i hp
          have hk : kept? (mime, c) = none := by simp [kept?, hp]
          rw [run_warn_bind] at h
          rw [List.filterMap_cons_none hk]
          exact ih h
        · rename_i pointer hp
          have hk : kept? (mime, c) = some (media, .ref pointer) := by simp [kept?, hm, hp]
          obtain ⟨t, σ₁, ht, h⟩ := run_bind_eq_ok.1 h
          obtain ⟨rfl, -⟩ := visit_reference ht
          rw [List.filterMap_cons_some hk]
          exact ih h

/-- A request body that is resolved has the contents that are kept, and is named after the
operation. -/
theorem run_requestBody {o : Document.Operation} {b : RequestBody}
    (h : (requestBody d operationId o).run σ = .ok (some b, σ')) :
    ∃ rb, o.requestBody = some rb ∧ b.required = rb.required ∧
      b.content = keptContents rb.content ∧ b.content ≠ [] ∧
      ∃ name, Naming.typeName? operationId = some name ∧ b.className = name ++ "Request" := by
  unfold requestBody at h
  split at h
  · cases h
  · rename_i rb hrb
    obtain ⟨content, σ₁, hcontent, h⟩ := run_bind_eq_ok.1 h
    split at h
    · rw [run_warn_bind] at h
      cases h
    · rename_i hne
      obtain ⟨name, σ₂, hname, h⟩ := run_bind_eq_ok.1 h
      obtain ⟨htype, rfl⟩ := run_typeName_eq_ok.1 hname
      obtain ⟨hb, -⟩ := run_pure_eq_ok.1 h
      obtain rfl := Option.some.inj hb
      exact ⟨rb, hrb, rfl, run_requestContents hcontent, fun he => hne (List.isEmpty_iff.2 he),
        name, htype, rfl⟩

end Runs

/-! ## A document with a form -/

section Reports

abbrev reportPointer : String :=
  "#/components/schemas/Report"

/-- A pointer to nothing but the next one. -/
abbrev labelPointer : String :=
  "#/components/schemas/Label"

/-- A pointer to a text. -/
abbrev textPointer : String :=
  "#/components/schemas/Text"

def reportContent : Document.MediaContent where
  schema := some { ref := some reportPointer }

/-- An operation with a body that may be absent, in a form or as JSON. -/
def sendReport : Document.Operation where
  operationId := some "sendReport"
  parameters := [.inline { queryNumber "limit" with required := false }]
  requestBody := some {
    required := false
    content := [
      ("Multipart/Form-Data; boundary=x", reportContent),
      ("text/plain", { schema := none }),
      ("application/json", reportContent)] }
  responses := [("200", { fileResponse with
    headers := [("X-Total", {
      required := false
      schema := some numberSchema
      description := none })] })]

/-- A document in which a text that a form may have stands behind two pointers. -/
def reportDocument : Document where
  paths := [("/reports", { post := some sendReport })]
  components := {
    schemas := [
      ("Report", {
        type := some "object"
        properties := [
          ("title", { ref := some labelPointer }),
          ("scan", { type := some "string", format := some "binary" })]
        required := ["scan"] }),
      ("Label", { ref := some textPointer }),
      ("Text", { type := some "string" })] }

def report : Descriptor :=
  .object (some "Report") [
    { name := "title", type := .ref labelPointer, required := false },
    { name := "scan", type := .fileUpload, format := some "binary", required := true }]

def reportBody : RequestBody where
  className := "SendReportRequest"
  required := false
  content := [(.multipart, .ref reportPointer), (.json, .ref reportPointer)]

def reportFile : Variant where
  name := "File"
  headers := some (.object (some "SendReportResponseFileHeaders")
    [{ name := "X-Total", type := .primitive .int, required := false }])
  payload := .body .file true

def reportOperation : Operation where
  path := "/reports"
  method := .post
  operationId := "sendReport"
  summary := none
  params := [{
    name := "limit"
    location := .query
    property := { name := "limit", type := .primitive .int, required := false } }]
  requestBody := some reportBody
  responseBody := {
    className := "SendReportResponse"
    variants := [(.code 200, reportFile)] }

/-- The state after the record has been resolved. -/
def reportProgress : Progress where
  table := {
    entries := [(textPointer, .primitive .string), (labelPointer, .ref textPointer),
      (reportPointer, report)]
    nodup_keys := by decide }
  entered := [reportPointer, labelPointer, textPointer]

/-- What is said of the content that is not kept. -/
def reportWarnings : List Warning :=
  [.unsupportedRequestMedia "sendReport" "text/plain"]

def reportMetadata : Metadata where
  namePrefix := "Api"
  operations := [reportOperation]
  refs := reportProgress.table

theorem run_reference_report :
    (reference reportDocument [] reportPointer).run {} =
      .ok (.ref reportPointer, reportProgress) := by
  have htext : (reference reportDocument [labelPointer, reportPointer] textPointer).run
      { entered := [reportPointer, labelPointer] } = .ok (.ref textPointer, {
        table := RefTable.empty.insert textPointer (.primitive .string)
        entered := [reportPointer, labelPointer, textPointer] }) := by
    refine (run_reference_eq_ok (by decide) (by decide)).2
      ⟨rfl, _, "Text", .primitive .string, {
        entered := [reportPointer, labelPointer, textPointer] }, rfl, rfl, ?_, rfl⟩
    rw [named, if_neg (by decide), if_neg (by decide), if_neg (by decide)]
    exact run_typeOf_scalar rfl rfl rfl
  have hlabel : (reference reportDocument [reportPointer] labelPointer).run
      { entered := [reportPointer] } = .ok (.ref labelPointer, {
        table := (RefTable.empty.insert textPointer (.primitive .string)).insert labelPointer
          (.ref textPointer)
        entered := [reportPointer, labelPointer, textPointer] }) := by
    refine (run_reference_eq_ok (by decide) (by decide)).2
      ⟨rfl, _, "Label", .ref textPointer, {
        table := RefTable.empty.insert textPointer (.primitive .string)
        entered := [reportPointer, labelPointer, textPointer] }, rfl, rfl, ?_, rfl⟩
    exact run_named_ref rfl htext
  refine (run_reference_eq_ok (by decide) (by decide)).2
    ⟨rfl, _, "Report", report, {
      table := (RefTable.empty.insert textPointer (.primitive .string)).insert labelPointer
        (.ref textPointer)
      entered := [reportPointer, labelPointer, textPointer] }, rfl, rfl, ?_, rfl⟩
  refine run_named_record (by decide) (by decide) (by decide) ?_
  refine run_propertiesOf_cons (run_typeOf_ref rfl hlabel) ?_
  exact run_propertiesOf_cons (run_typeOf_scalar rfl rfl rfl) run_propertiesOf_nil

theorem run_requestBody_report :
    (requestBody reportDocument "sendReport" sendReport).run {} =
      .ok (some reportBody, { reportProgress with warnings := reportWarnings }) := by
  have hcontents : (requestContents reportDocument "sendReport" []
      [("Multipart/Form-Data; boundary=x", reportContent), ("text/plain", { schema := none }),
        ("application/json", reportContent)]).run {} =
      .ok (reportBody.content, { reportProgress with warnings := reportWarnings }) := by
    refine run_requestContents_cons rfl rfl run_reference_report ?_
    -- The second content is kept by nobody.
    refine run_bind_eq_ok.2 ⟨⟨⟩, { reportProgress with warnings := reportWarnings }, rfl, ?_⟩
    exact run_requestContents_cons rfl rfl (run_reference_of_mem_keys (by decide)) rfl
  exact run_requestBody_of "SendReport" rfl hcontents rfl rfl

theorem run_responseBody_report (σ : Progress) :
    (responseBody reportDocument "sendReport" sendReport).run σ =
      .ok (reportOperation.responseBody, σ) := by
  refine run_responseBody_of "SendReport" rfl ?_
  refine run_responseVariants_cons rfl (v := reportFile) ?_ rfl rfl rfl
  exact run_responseVariant_file rfl rfl (run_responseHeaders_scalar rfl rfl rfl rfl)

theorem run_parameters_report :
    (parameters reportDocument "sendReport" { post := some sendReport } sendReport).run {} =
      .ok (reportOperation.params, {}) := by
  refine run_parameters_of [{ queryNumber "limit" with required := false }] rfl rfl rfl ?_
  exact .cons (run_parameter_scalar rfl rfl rfl rfl rfl) .nil

theorem resolve_reportDocument :
    reportDocument.resolve "Api" = .ok (reportMetadata, reportWarnings) := by
  have hes : operationsOf reportDocument =
      [("/reports", .post, { post := some sendReport }, sendReport)] := rfl
  have hrun : (endpoint reportDocument
      ("/reports", .post, { post := some sendReport }, sendReport)).run {} =
      .ok (reportOperation, { reportProgress with warnings := reportWarnings }) :=
    run_operation_of rfl rfl rfl run_parameters_report rfl rfl run_requestBody_report
      (run_responseBody_report _)
  exact resolve_of_operation hes rfl hrun

end Reports

end Resolve
end ApiContract
