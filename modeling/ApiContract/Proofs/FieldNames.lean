import ApiContract.Proofs.RequestDispatch
import ApiContract.Proofs.Words

/-!
# Names of fields and members

**Input:** the models of resolved metadata.

A record has a field for each of its properties, called by the words of its wire name.  A variant of
a sum has a member for its body and one for its headers, called by the words of a schema, of the
record of headers, or by `file` or `body`.  Identifiers are not compared with each other.

**Results:**

* `nodup_members_iff`: the members of a variant have different identifiers, unless its body is a
  pointer with the words of its record of headers;
* `model_fields`: when the fields of a record and the members of a variant have different
  identifiers;
* `models_repeat_names`: properties with the same words get the same field, and a body can get the
  name of the headers.
-/

namespace ApiContract

open Naming (fieldIdent fieldIdent_eq_iff fieldIdent_ne identWords lastLetter?
    lastLetter?_append simpleName)

namespace Emit

/-! ## Members -/

/-- The body of a variant is a pointer with the words of the record of headers. -/
def HidesHeaders (v : Variant) : Prop :=
  ∃ pointer name ps, v.payload = .body (.ref pointer) false ∧
    v.headers = some (.object (some name) ps) ∧ identWords (simpleName pointer) = identWords name

section Members

open Resolve (Describes scalarOf?_cases shapeOf? shapeOf?_cases)

variable {table : RefTable} {className context : String} {r : Document.Response} {v : Variant}
  {s : Document.Schema} {t : Descriptor}

/-- What is not a pointer is a member called `file` or `body`, or by its context. -/
theorem memberName_of_shapeOf? (h : shapeOf? s context = some t) :
    (∃ pointer, t = .ref pointer) ∨
      (∀ pointer, t ≠ .ref pointer) ∧ memberName t ∈ ["file", "body", context] := by
  rcases shapeOf?_cases h with ⟨pointer, -, rfl⟩ | ⟨-, -, hscalar⟩ | ⟨_, _, -, rfl, -⟩ |
    ⟨ps, -, rfl⟩
  · exact Or.inl ⟨pointer, rfl⟩
  · rcases scalarOf?_cases hscalar with rfl | ⟨q, rfl⟩ <;> simp [memberName, Descriptor.name?]
  · simp [memberName, Descriptor.name?]
  · cases ps <;> simp [Resolve.record, memberName, Descriptor.name?]

/-- What is not a pointer is called by a name that ends as in `file` or as in `body`. -/
theorem body_cases (h : Describes table className r v) {isFile : Bool}
    (hp : v.payload = .body t isFile) :
    (∃ pointer, t = .ref pointer ∧ isFile = false) ∨
      (∀ pointer, t ≠ .ref pointer) ∧ ∃ c ∈ ['e', 'y'], lastLetter? (memberName t) = some c := by
  have hfile : lastLetter? "file" = some 'e' := by decide
  have hbody : lastLetter? "body" = some 'y' := by decide
  have hpayload := h.payload
  split at hpayload
  · obtain ⟨u, hu, hu'⟩ := hpayload
    obtain ⟨rfl, rfl⟩ := Payload.body.inj (hp.symm.trans hu')
    rcases memberName_of_shapeOf? hu with ⟨pointer, rfl⟩ | ⟨hpointer, hname⟩
    · exact Or.inl ⟨pointer, rfl, rfl⟩
    · refine Or.inr ⟨hpointer, ?_⟩
      simp only [List.mem_cons, List.not_mem_nil, or_false] at hname
      rcases hname with hname | hname | hname
      · exact ⟨'e', by simp, by rw [hname, hfile]⟩
      · exact ⟨'y', by simp, by rw [hname, hbody]⟩
      · refine ⟨'y', by simp, ?_⟩
        rw [hname]
        exact lastLetter?_append (by decide)
  · split at hpayload
    · obtain ⟨rfl, -⟩ := Payload.body.inj (hp.symm.trans hpayload)
      exact Or.inr ⟨by simp, 'e', by simp, hfile⟩
    · cases hp.symm.trans hpayload

/-- The record of headers is called by a name that ends in `s`. -/
theorem headers_called (h : Describes table className r v) {u : Descriptor}
    (hu : v.headers = some u) :
    ∃ name ps, u = .object (some name) ps ∧ lastLetter? name = some 's' := by
  rcases h.headers with ⟨-, hnone⟩ | ⟨-, ps, hsome, -⟩
  · cases hnone.symm.trans hu
  · exact ⟨_, ps, Option.some.inj (hu.symm.trans hsome), lastLetter?_append (by decide)⟩

/-- The members of a variant have different identifiers, unless its body is a pointer with the words
of its record of headers. -/
theorem nodup_members_iff (h : Describes table className r v) :
    (v.members.map memberIdent).Nodup ↔ ¬ HidesHeaders v := by
  cases hheaders : v.headers with
  | none =>
      have hbody : v.members = v.body?.toList := by
        rw [Variant.members, hheaders, Option.toList_none, List.append_nil]
      have hsingle : (v.members.map memberIdent).Nodup := by
        rw [hbody]
        cases v.body? <;> simp
      refine iff_of_true hsingle ?_
      rintro ⟨_, _, _, -, hsome, -⟩
      cases hheaders.symm.trans hsome
  | some u =>
      obtain ⟨name, ps, rfl, hname⟩ := headers_called h hheaders
      cases hp : v.payload with
      | none =>
          have hmembers : v.members = [.object (some name) ps] := by
            rw [Variant.members, Variant.body?, hp, hheaders]
            rfl
          refine iff_of_true (by simp [hmembers]) ?_
          rintro ⟨_, _, _, hbody, -, -⟩
          cases hp.symm.trans hbody
      | body t isFile =>
          have hmembers : v.members = [t, .object (some name) ps] := by
            rw [Variant.members, Variant.body?, hp, hheaders]
            rfl
          have hpair : (v.members.map memberIdent).Nodup ↔
              fieldIdent (memberName t) ≠ fieldIdent name := by
            simp [hmembers, memberIdent, memberName, Descriptor.name?]
          rw [hpair]
          rcases body_cases h hp with ⟨pointer, rfl, rfl⟩ | ⟨hpointer, c, hc, hlast⟩
          · rw [ne_eq, fieldIdent_eq_iff, not_iff_not]
            constructor
            · exact fun hwords => ⟨pointer, name, ps, hp, hheaders, hwords⟩
            · rintro ⟨pointer', name', ps', hp', hheaders', hwords⟩
              cases hp.symm.trans hp'
              cases hheaders.symm.trans hheaders'
              exact hwords
          · refine iff_of_true (fieldIdent_ne hlast hname ?_) ?_
            · rintro rfl
              revert hc
              decide
            · rintro ⟨pointer, _, _, hbody, -, -⟩
              exact hpointer pointer (Payload.body.inj (hp.symm.trans hbody)).1

end Members

/-! ## Fields -/

/-- The properties that the record of a descriptor is made of.  A named array has one that is called
by the name of its type. -/
def recordProperties : Descriptor → List Property
  | .object _ ps => ps
  | .array (some name) e =>
    [{ name := Naming.decapitalize name, type := .array none e, required := true }]
  | _ => []

/-- A record declares the field of a property: the text of the field stands in it, with its
attributes, and these rename it to the name that the property has on the wire. -/
structure DeclaresField (r : Model) (p : Property) (f : Field) : Prop where
  ident : f.ident = fieldIdent p.name
  wire : f.wire = p.name
  declared : ∃ text, FieldText f text ∧ text <:+: r.code

/-- A sum declares a variant with members for descriptors: the text of the variant stands in it. -/
structure DeclaresVariant (r : Model) (tag : String) (ts : List Descriptor) (sv : SumVariant) :
    Prop where
  tag : sv.tag = tag
  members : sv.members.map Prod.fst = ts.map memberIdent
  declared : ∃ text, VariantText sv text ∧ text <:+: r.code

/-- What a model declares, and when the names in it are different. -/
def DeclaresNames (m : Metadata) (r : Model) : ModelShape → Prop
  | .upload => r = upload
  | .openRecord => ∃ t, r.descriptor = some t ∧ recordProperties t = []
  | .record fields => ∃ t, r.descriptor = some t ∧
      List.Forall₂ (DeclaresField r) (recordProperties t) fields ∧
      ((fields.map (·.ident)).Nodup ↔ ((recordProperties t).map fun p => identWords p.name).Nodup)
  | .sum svs => ∃ o ∈ m.operations,
      (r.descriptor = some o.responseBody.sum ∧
        List.Forall₂ (fun e sv => DeclaresVariant r e.2.name e.2.members sv ∧
          ((sv.members.map Prod.fst).Nodup ↔ ¬ HidesHeaders e.2)) o.responseBody.variants svs) ∨
      ∃ b, o.requestBody = some b ∧ r.descriptor = some b.sum ∧
        List.Forall₂ (fun e sv => DeclaresVariant r e.1.tag [e.2] sv) b.content svs

section Models

variable {d : Document} {namePrefix : String} {m : Metadata} {ws : List Warning} {ms : List Model}
  {r : Model} {refs : RefTable} {t : Descriptor} {name : String}

/-- A model is a record of properties or a sum. -/
theorem modelOf?_cases {shape : Emitting ModelShape} (h : modelOf? refs t = some (name, shape)) :
    shape = recordShape refs (recordProperties t) ∨
      ∃ vs, t = .oneOf name vs ∧ shape = sumShape refs vs := by
  unfold modelOf? at h
  split at h
  · obtain ⟨rfl, rfl⟩ := Prod.mk.inj (Option.some.inj h)
    exact Or.inl rfl
  · obtain ⟨rfl, rfl⟩ := Prod.mk.inj (Option.some.inj h)
    exact Or.inl rfl
  · obtain ⟨rfl, rfl⟩ := Prod.mk.inj (Option.some.inj h)
    exact Or.inr ⟨_, rfl, rfl⟩
  · cases h

/-- The fields of a record are those of its properties, and are different exactly if the properties
have different words. -/
theorem declaresNames_record (hdescriptor : r.descriptor = some t)
    (h : recordShape refs (recordProperties t) = .ok r.shape) : DeclaresNames m r r.shape := by
  cases hps : recordProperties t with
  | nil =>
      rw [hps] at h
      rw [← Except.ok.inj h]
      exact ⟨t, hdescriptor, hps⟩
  | cons p ps =>
      obtain ⟨fields, hshape⟩ := exists_fields_of_recordShape (hps ▸ List.mem_cons_self) h
      rw [hshape] at h
      have hfields := fields_of_recordShape h
      have hidents : fields.map (·.ident) = (recordProperties t).map fun p =>
          fieldIdent p.name := by
        rw [eq_comm, map_eq_map_iff]
        exact hfields.imp fun _ _ hf => hf.ident.symm
      rw [hshape]
      refine ⟨t, hdescriptor, ?_, ?_⟩
      · have htext := r.text
        rw [hshape] at htext
        exact forall₂_imp_mem hfields fun p f _ hf hfield =>
          ⟨hfield.ident, hfield.wire, htext.field hf⟩
      · rw [hidents, List.Nodup, List.Nodup, List.pairwise_map, List.pairwise_map]
        simp only [ne_eq, fieldIdent_eq_iff]

/-- The variants of a sum have members for its descriptors. -/
theorem declaresVariants {vs : List (String × List Descriptor)}
    (h : sumShape refs vs = .ok r.shape) :
    ∃ svs, r.shape = .sum svs ∧ List.Forall₂ (fun v sv => DeclaresVariant r v.1 v.2 sv) vs svs := by
  obtain ⟨svs, hshape, hsvs⟩ := sumShape_eq_ok h
  have htext := r.text
  rw [hshape] at htext
  exact ⟨svs, hshape, forall₂_imp_mem hsvs fun v sv _ hsv hv =>
    ⟨hv.1, map_fst_of_members hv.2, htext.variant hsv⟩⟩

/-- The sum of responses declares their variants. -/
theorem declaresNames_responses (h : d.resolve namePrefix = .ok (m, ws)) {o : Operation}
    (ho : o ∈ m.operations) (hdescriptor : r.descriptor = some o.responseBody.sum)
    (hmade : modelOf? refs o.responseBody.sum = some (r.name, .ok r.shape)) :
    DeclaresNames m r r.shape := by
  obtain ⟨_, _, _, hrun⟩ := Resolve.exists_run_responseBody h ho
  rw [Resolve.sum_eq (Resolve.nodup_names_of_responseBody hrun)] at hmade
  obtain ⟨-, hsum⟩ := Prod.mk.inj (Option.some.inj hmade)
  obtain ⟨svs, hshape, hsvs⟩ := declaresVariants hsum
  rw [hshape]
  refine ⟨o, ho, Or.inl ⟨hdescriptor, ?_⟩⟩
  refine forall₂_imp_mem (List.forall₂_map_left_iff.1 hsvs) fun e sv he _ hv => ⟨hv, ?_⟩
  obtain ⟨_, hdescribes⟩ := Resolve.exists_describes_of_responseBody hrun he
  rw [hv.members]
  exact nodup_members_iff hdescribes

/-- The sum of request bodies declares a variant for each of them. -/
theorem declaresNames_requests {o : Operation} (ho : o ∈ m.operations) {b : RequestBody}
    (hb : o.requestBody = some b) (hdescriptor : r.descriptor = some b.sum)
    (hmade : modelOf? refs b.sum = some (r.name, .ok r.shape)) : DeclaresNames m r r.shape := by
  obtain ⟨-, hsum⟩ := Prod.mk.inj (Option.some.inj hmade)
  obtain ⟨svs, hshape, hsvs⟩ := declaresVariants hsum
  rw [hshape]
  exact ⟨o, ho, Or.inr ⟨b, hb, hdescriptor, List.forall₂_map_left_iff.1 hsvs⟩⟩

/-- The fields of a record are called by the words of its properties, and are different exactly if
these are.  The members of a variant of responses are different, unless its body is a pointer with
the words of its record of headers.  A variant of request bodies has one member. -/
theorem model_fields (h : d.resolve namePrefix = .ok (m, ws)) (hms : (models m).1 = .ok ms)
    (hr : r ∈ ms) : DeclaresNames m r r.shape := by
  rcases (collected_of_models hms).made r hr with rfl | ⟨t, ht, hdescriptor, hmade⟩
  · rfl
  · rcases modelOf?_cases hmade with hrecord | ⟨vs, rfl, -⟩
    · exact declaresNames_record hdescriptor hrecord.symm
    · obtain ⟨o, ho, hsum⟩ := Resolve.exists_operation_of_sum h ht
      rcases List.mem_cons.1 hsum with hsum | hsum
      · rw [hsum] at hdescriptor hmade
        exact declaresNames_responses h ho hdescriptor hmade
      · obtain ⟨b, hb, hsum⟩ := Option.map_eq_some_iff.1 (Option.mem_toList.1 hsum)
        rw [← hsum] at hdescriptor hmade
        exact declaresNames_requests ho hb hdescriptor hmade

theorem model_fields_reports :
    Resolve.reportDocument.resolve "Api" = .ok (Resolve.reportMetadata, Resolve.reportWarnings) ∧
      (models Resolve.reportMetadata).1 = .ok reportModels ∧
      ∀ r ∈ reportModels, DeclaresNames Resolve.reportMetadata r r.shape :=
  ⟨Resolve.resolve_reportDocument, models_reports,
    fun _ => model_fields Resolve.resolve_reportDocument models_reports⟩

end Models

/-! ## Names that are given twice -/

section Scores

open Resolve (Progress endpoint jsonBody numberSchema operationsOf reference resolve_of_operation
  responseBody responseVariant run_bind_eq_ok run_jsonBody_of_named run_named_record
  run_named_scalar run_operation_of run_propertiesOf_cons run_propertiesOf_nil
  run_reference_eq_ok run_requestBody_none run_responseBody_of run_responseHeaders_none
  run_responseHeaders_scalar run_responseVariant_json run_responseVariants_cons run_typeOf_scalar)

def rankPointer : String :=
  "#/components/schemas/ReadScoreResponseOkHeaders"

def playerPointer : String :=
  "#/components/schemas/Player"

/-- A response with a header and a text, whose schema is called like the record of its headers. -/
def rankResponse : Document.Response where
  description := none
  headers := [("X-Rank", { required := true, schema := some numberSchema, description := none })]
  content := [("application/json", { schema := some { ref := some rankPointer } })]

def playerResponse : Document.Response where
  description := none
  headers := []
  content := [("application/json", { schema := some { ref := some playerPointer } })]

def readScore : Document.Operation where
  operationId := some "readScore"
  responses := [("200", rankResponse), ("404", playerResponse)]

def textSchema : Document.Schema := { type := some "string" }

/-- A document with a record that has two properties of the same words. -/
def scoreDocument : Document where
  paths := [("/score", { get := some readScore })]
  components := {
    schemas := [
      ("ReadScoreResponseOkHeaders", textSchema),
      ("Player", {
        type := some "object"
        properties := [("nickName", textSchema), ("nick_name", textSchema)] })] }

def player : Descriptor :=
  .object (some "Player") [
    { name := "nickName", type := .primitive .string, required := false },
    { name := "nick_name", type := .primitive .string, required := false }]

def rankHeaders : Descriptor :=
  .object (some "ReadScoreResponseOkHeaders")
    [{ name := "X-Rank", type := .primitive .int, required := true }]

def rankVariant : Variant where
  name := "Ok"
  headers := some rankHeaders
  payload := .body (.ref rankPointer) false

def playerVariant : Variant where
  name := "Player"
  headers := none
  payload := .body (.ref playerPointer) false

def scoreResponses : ResponseBody where
  className := "ReadScoreResponse"
  variants := [(.code 200, rankVariant), (.code 404, playerVariant)]

/-- The state after the first response has been resolved. -/
def rankProgress : Progress where
  table := { entries := [(rankPointer, .primitive .string)] }
  entered := [rankPointer]

def scoreProgress : Progress where
  table := {
    entries := [(rankPointer, .primitive .string), (playerPointer, player)]
    nodup_keys := by decide }
  entered := [rankPointer, playerPointer]

def scoreMetadata : Metadata where
  namePrefix := "Api"
  operations := [{
    path := "/score"
    method := .get
    operationId := "readScore"
    summary := none
    params := []
    requestBody := none
    responseBody := scoreResponses }]
  refs := scoreProgress.table

theorem run_reference_rank :
    (reference scoreDocument [] rankPointer).run {} = .ok (.ref rankPointer, rankProgress) := by
  refine (run_reference_eq_ok (by decide) (by decide)).2
    ⟨rfl, _, "ReadScoreResponseOkHeaders", .primitive .string, { entered := [rankPointer] },
      rfl, rfl, ?_, rfl⟩
  exact run_named_scalar (by decide) (by decide) (by decide) rfl

theorem run_reference_player : (reference scoreDocument [] playerPointer).run rankProgress =
    .ok (.ref playerPointer, scoreProgress) := by
  refine (run_reference_eq_ok (by decide) (by decide)).2
    ⟨rfl, _, "Player", player, { rankProgress with entered := [rankPointer, playerPointer] },
      rfl, rfl, ?_, rfl⟩
  refine run_named_record (by decide) (by decide) (by decide) ?_
  refine run_propertiesOf_cons (run_typeOf_scalar rfl rfl rfl) ?_
  exact run_propertiesOf_cons (run_typeOf_scalar rfl rfl rfl) run_propertiesOf_nil

theorem run_responseBody_score :
    (responseBody scoreDocument "readScore" readScore).run {} =
      .ok (scoreResponses, scoreProgress) := by
  have hrankBody : (jsonBody scoreDocument "readScore" "ReadScoreResponse" (.code 200)
      { ref := some rankPointer }).run {} = .ok (("Ok", .ref rankPointer), rankProgress) :=
    run_bind_eq_ok.2 ⟨_, _, run_reference_rank, rfl⟩
  have hrank : (responseVariant scoreDocument "readScore" "ReadScoreResponse" (.code 200)
      rankResponse).run {} = .ok (rankVariant, rankProgress) :=
    run_responseVariant_json rfl hrankBody (run_responseHeaders_scalar rfl rfl rfl rfl)
  have hplayerBody : (jsonBody scoreDocument "readScore" "ReadScoreResponse" (.code 404)
      { ref := some playerPointer }).run rankProgress =
      .ok (("Player", .ref playerPointer), scoreProgress) :=
    run_jsonBody_of_named rfl run_reference_player rfl rfl
  have hplayer : (responseVariant scoreDocument "readScore" "ReadScoreResponse" (.code 404)
      playerResponse).run rankProgress = .ok (playerVariant, scoreProgress) :=
    run_responseVariant_json rfl hplayerBody (run_responseHeaders_none rfl)
  refine run_responseBody_of "ReadScore" rfl ?_
  refine run_responseVariants_cons rfl hrank rfl rfl ?_
  exact run_responseVariants_cons rfl hplayer rfl rfl rfl

theorem resolve_scoreDocument : scoreDocument.resolve "Api" = .ok (scoreMetadata, []) := by
  have hes : operationsOf scoreDocument =
      [("/score", .get, { get := some readScore }, readScore)] := rfl
  have hrun : (endpoint scoreDocument ("/score", .get, { get := some readScore }, readScore)).run {}
      = .ok (_, scoreProgress) :=
    run_operation_of rfl rfl rfl rfl rfl rfl (run_requestBody_none rfl) run_responseBody_score
  exact resolve_of_operation hes rfl hrun

/-- The field of a property of `Player`. -/
def nickField (wire : String) : Field where
  ident := "nick_name"
  wire := wire
  type := .optional (.scalar .string)
  required := false
  format := none

def playerModel : Model where
  name := "Player"
  descriptor := some player
  shape := .record [nickField "nickName", nickField "nick_name"]

def scoreModel : Model where
  name := "ReadScoreResponse"
  descriptor := some scoreResponses.sum
  shape := .sum [
    { tag := "Ok"
      members := [("read_score_response_ok_headers", .scalar .string),
        ("read_score_response_ok_headers", .model "ReadScoreResponseOkHeaders")] },
    { tag := "Player", members := [("player", .model "Player")] }]

def rankHeadersModel : Model where
  name := "ReadScoreResponseOkHeaders"
  descriptor := some rankHeaders
  shape := .record [{
    ident := "x_rank"
    wire := "X-Rank"
    type := .scalar .int
    required := true
    format := none }]

theorem models_score :
    (models scoreMetadata).1 = .ok [upload, playerModel, scoreModel, rankHeadersModel] := by
  have hplayer : claimPart scoreProgress.table player =
      claim "Player" player (.ok playerModel.shape) := by
    have hfield : ∀ wire, Naming.fieldIdent wire = "nick_name" → fieldOf scoreProgress.table
        { name := wire, type := .primitive .string, required := false } = .ok (nickField wire) := by
      intro wire hwire
      rw [fieldOf_scalar (q := .string) rfl rfl, hwire]
      rfl
    have hfields := mapM_eq_ok.2
      (.cons (hfield "nickName" (by decide)) (.cons (hfield "nick_name" (by decide)) .nil))
    exact congrArg (claim "Player" player) (map_eq_ok.2 ⟨_, hfields, rfl⟩)
  have hheaders : claimPart scoreProgress.table rankHeaders =
      claim "ReadScoreResponseOkHeaders" rankHeaders (.ok rankHeadersModel.shape) :=
    congrArg (claim "ReadScoreResponseOkHeaders" rankHeaders) (recordShape_number _ "X-Rank")
  have hsum : claimPart scoreProgress.table scoreResponses.sum =
      claim "ReadScoreResponse" scoreResponses.sum (.ok scoreModel.shape) := by
    have hrank : typeOf scoreProgress.table (.ref rankPointer) = .ok (.scalar .string) :=
      typeOf_eq_scalar rfl
    have hrecord : typeOf scoreProgress.table rankHeaders =
        .ok (.model "ReadScoreResponseOkHeaders") := typeOf_eq_model_iff.2 ⟨_, rfl, rfl⟩
    have hmodel : typeOf scoreProgress.table (.ref playerPointer) = .ok (.model "Player") :=
      typeOf_eq_model_iff.2 ⟨player, rfl, rfl⟩
    have hone := mapM_eq_ok.2
      (.cons (memberOf_of_typeOf hrank) (.cons (memberOf_of_typeOf hrecord) .nil))
    have htwo := mapM_eq_ok.2 (.cons (memberOf_of_typeOf hmodel) .nil)
    refine congrArg (claim "ReadScoreResponse" _) ?_
    refine map_eq_ok.2 ⟨_, mapM_eq_ok.2 (.cons ?_ (.cons ?_ .nil)), rfl⟩
    · exact bind_eq_ok.2 ⟨_, hone, rfl⟩
    · exact bind_eq_ok.2 ⟨_, htwo, rfl⟩
  have hparts : allParts scoreMetadata = [.primitive .string, player, .primitive .string,
      .primitive .string, scoreResponses.sum, .ref rankPointer, rankHeaders, .primitive .int,
      .ref playerPointer] := rfl
  have hother : ∀ t ∈ [Descriptor.primitive .string, .ref rankPointer, .primitive .int,
      .ref playerPointer], claimPart scoreProgress.table t = pure () := by
    simp [claimPart, modelOf?]
  have hclaims : (allParts scoreMetadata).forM (claimPart scoreProgress.table) =
      (claim "Player" player (.ok playerModel.shape) >>= fun _ =>
        claim "ReadScoreResponse" scoreResponses.sum (.ok scoreModel.shape) >>= fun _ =>
          claim "ReadScoreResponseOkHeaders" rankHeaders (.ok rankHeadersModel.shape)) := by
    rw [hparts]
    simp only [List.mem_cons, List.not_mem_nil, or_false, forall_eq_or_imp, forall_eq] at hother
    simp [hplayer, hsum, hheaders, hother]
  exact models_of_claims rfl hclaims

/-- Two properties with the same words become two fields of the same name, and the text of a
response and its headers become two members of the same name. -/
theorem models_repeat_names :
    scoreDocument.resolve "Api" = .ok (scoreMetadata, []) ∧
      (models scoreMetadata).1 = .ok [upload, playerModel, scoreModel, rankHeadersModel] ∧
      (∃ fields, playerModel.shape = .record fields ∧
        fields.map (fun f => (f.ident, f.wire)) =
          [("nick_name", "nickName"), ("nick_name", "nick_name")]) ∧
      ∃ sv svs, scoreModel.shape = .sum (sv :: svs) ∧ sv.members.map Prod.fst =
        ["read_score_response_ok_headers", "read_score_response_ok_headers"] :=
  ⟨resolve_scoreDocument, models_score, ⟨_, rfl, rfl⟩, _, _, rfl, rfl⟩

end Scores

end Emit
end ApiContract
