import ApiContract.Emit.Handlers
import ApiContract.Proofs.Locals
import ApiContract.Proofs.ModelTexts
import ApiContract.Proofs.ReadTypes

/-!
# The texts of contract methods and handlers

**Input:** the methods of a contract, and the handlers that call them.

As for models, generated code is described by rules for its tokens, which do without the functions
that print.  A handler is a list of statements, of which each uses some names and introduces others.

**Results:**

* `ContractMethodText`, `HandlerText`: the texts of contract methods and handlers, made up of those
  of their arguments (`ParamsText`), reads (`ParamReadText`, `BodyDispatchText`) and arms
  (`DispatchArmText`);
* `ControllerText`: the text of the controller, whose router has the routes (`RouteText`);
* `ContractMethod.text`, `Handler.text`, `controllerCode_text`: what is printed is such a text;
* `Handler.code_eq`: the code of a handler is that of its statements (`Handler.statements`).
-/

namespace ApiContract
namespace Emit

open Code (Statement flat word literal braces parens commas docAttr docAttrs)

/-! ## Contract methods -/

/-- The text of an argument: its identifier and its type. -/
inductive ArgumentText : ContractParam → Code → Prop
  | argument {wire : Option String} {ident : String} {t : CodeType} {type : Code}
      (h : TypeText .sibling t type) :
      ArgumentText ⟨wire, ident, t⟩ (word ident ++ flat ":" ++ type)

/-- The text of the arguments of a method, behind the receiver. -/
def ParamsText (ps : List ContractParam) (c : Code) : Prop :=
  ∃ texts, List.Forall₂ ArgumentText ps texts ∧ c = flat "(&self," ++ commas texts ++ flat ")"

/-- The text of a contract method. -/
def ContractMethodText (k : ContractMethod) (c : Code) : Prop :=
  ∃ params, ParamsText k.params params ∧
    c = docAttrs k.doc ++
      (flat "fn" ++ word k.ident ++ params ++
        (flat "-> impl ::std::future::Future<Output = Result<models::" ++ word k.response ++
          flat ", ::bindery::ServiceError>,> + Send;"))

theorem paramsCode_text (ps : List ContractParam) : ParamsText ps (paramsCode ps) :=
  ⟨ps.map (·.code), texts_map fun p _ => .argument (p.type.text .sibling), rfl⟩

theorem ContractMethod.text (k : ContractMethod) : ContractMethodText k k.code := by
  have hresult : flat "-> impl ::std::future::Future<Output = Result<models::" =
      flat "-> impl ::std::future::Future<Output = Result<" ++ flat "models::" := by
    decide +kernel
  refine ⟨paramsCode k.params, paramsCode_text k.params, ?_⟩
  rw [hresult]
  simp only [ContractMethod.code, modelPath, List.append_assoc]

/-! ## Reads of parameters -/

/-- The text of the raw text of a parameter, by its location and its wire name. -/
inductive RawText (wire : String) : Location → Code → Prop
  | path :
      RawText wire .path (flat "path_params.get(" ++ literal wire ++ flat ").map(String::as_str)")
  | query :
      RawText wire .query
        (flat "query_params.get(" ++ literal wire ++ flat ").map(String::as_str)")
  | header :
      RawText wire .header (flat "::bindery::header_value(&header_map," ++
        literal wire ++ flat ")?")

/-- The text of the statement that reads a parameter. -/
inductive ParamReadText : ParamRead → Code → Prop
  | required {binding wire : String} {location : Location} {q : Primitive} {raw parser : Code}
      (hraw : RawText wire location raw) (hparser : (parser, q) ∈ parsers) :
      ParamReadText ⟨binding, wire, location, true, q⟩
        (flat "let" ++ word binding ++
          (flat "= ::bindery::read_required_param(" ++ literal wire ++
            (flat "," ++ raw ++ (flat "," ++ parser ++ flat ")?;"))))
  | optional {binding wire : String} {location : Location} {q : Primitive} {raw parser : Code}
      (hraw : RawText wire location raw) (hparser : (parser, q) ∈ parsers) :
      ParamReadText ⟨binding, wire, location, false, q⟩
        (flat "let" ++ word binding ++
          (flat "= ::bindery::read_optional_param(" ++ literal wire ++
            (flat "," ++ raw ++ (flat "," ++ parser ++ flat ")?;"))))

theorem rawCode_text (r : ParamRead) : RawText r.wire r.location (rawCode r) := by
  unfold rawCode
  cases r.location with
  | path => exact .path
  | query => exact .query
  | header => exact .header

theorem ParamRead.text (r : ParamRead) : ParamReadText r r.code := by
  obtain ⟨binding, wire, location, required, q⟩ := r
  have hraw := rawCode_text ⟨binding, wire, location, required, q⟩
  have hparser := scalarReader_mem_parsers q
  have hargs : ∀ raw parser : Code, parens (commas [literal wire, raw, parser]) ++ flat "?;" =
      [.mark '('] ++ (literal wire ++ (flat "," ++ raw ++ (flat "," ++ parser ++ flat ")?;"))) := by
    intro raw parser
    have hcomma : flat "," = [.mark ','] := rfl
    have hclose : flat ")?;" = .mark ')' :: flat "?;" := rfl
    rw [hcomma, hclose]
    simp [parens, commas, List.intercalate]
  unfold ParamRead.code
  cases required with
  | true =>
      have hreader : flat "= ::bindery::read_required_param(" =
          flat "=" ++ flat "::bindery::read_required_param" ++ [.mark '('] := rfl
      have htext := @ParamReadText.required binding wire location q _ _ hraw hparser
      simp only [hreader, if_true, List.append_assoc, hargs] at htext ⊢
      exact htext
  | false =>
      have hreader : flat "= ::bindery::read_optional_param(" =
          flat "=" ++ flat "::bindery::read_optional_param" ++ [.mark '('] := rfl
      have htext := @ParamReadText.optional binding wire location q _ _ hraw hparser
      simp only [hreader, Bool.false_eq_true, if_false, List.append_assoc, hargs] at htext ⊢
      exact htext

/-! ## Reads of forms -/

/-- The text of the statement that reads a form field. -/
inductive FieldReadText : FieldRead → Code → Prop
  | required {ident wire : String} {q : Primitive} {parser : Code} (h : (parser, q) ∈ parsers) :
      FieldReadText ⟨ident, wire, true, .scalar q⟩
        (flat "let" ++ word ("field_" ++ ident) ++
          (flat "= form.required(" ++ literal wire ++ (flat "," ++ parser ++ flat ")?;")))
  | optional {ident wire : String} {q : Primitive} {parser : Code} (h : (parser, q) ∈ parsers) :
      FieldReadText ⟨ident, wire, false, .scalar q⟩
        (flat "let" ++ word ("field_" ++ ident) ++
          (flat "= form.optional(" ++ literal wire ++ (flat "," ++ parser ++ flat ")?;")))
  | requiredFile {ident wire : String} :
      FieldReadText ⟨ident, wire, true, .file⟩
        (flat "let" ++ word ("field_" ++ ident) ++
          (flat "= models::FileUpload::from(form.required_file(" ++ literal wire ++
            flat ", &mut cleanup).await?);"))
  | optionalFile {ident wire : String} :
      FieldReadText ⟨ident, wire, false, .file⟩
        (flat "let" ++ word ("field_" ++ ident) ++
          (flat "= form.optional_file(" ++ literal wire ++
            flat ", &mut cleanup).await?.map(models::FileUpload::from);"))

/-- The text of the statements that read a form: one for each field, and the record of them all. -/
inductive FormText : BodyRead → Code → Prop
  | form {f : FormRead} {reads : Code} (h : Pieces FieldReadText f.reads reads) :
      FormText (.form f)
        (flat "let form = ::bindery::read_form(request).await?;" ++
          (reads ++ (flat "let record = models::" ++ word f.record ++
            (braces (commas (f.fields.map fun g =>
              word g.ident ++ flat ":" ++ word ("field_" ++ g.ident))) ++ flat ";"))))
  | multipart {f : FormRead} {reads : Code} (h : Pieces FieldReadText f.reads reads) :
      FormText (.multipart f)
        (flat "let form = ::bindery::read_multipart(request).await?;" ++
          (reads ++ (flat "let record = models::" ++ word f.record ++
            (braces (commas (f.fields.map fun g =>
              word g.ident ++ flat ":" ++ word ("field_" ++ g.ident))) ++ flat ";"))))

theorem FieldRead.text (f : FieldRead) : FieldReadText f f.code := by
  obtain ⟨ident, wire, required, kind⟩ := f
  cases kind with
  | scalar q =>
      have hparser := scalarReader_mem_parsers q
      cases required with
      | true =>
          have hreader : flat "= form.required(" = flat "=" ++ flat "form.required(" := rfl
          have htext := @FieldReadText.required ident wire q _ hparser
          rw [hreader] at htext
          simpa only [FieldRead.code, FieldRead.binding, List.append_assoc] using htext
      | false =>
          have hreader : flat "= form.optional(" = flat "=" ++ flat "form.optional(" := rfl
          have htext := @FieldReadText.optional ident wire q _ hparser
          rw [hreader] at htext
          simpa only [FieldRead.code, FieldRead.binding, List.append_assoc] using htext
  | file =>
      cases required with
      | true =>
          have hreader : flat "= models::FileUpload::from(form.required_file(" =
              flat "=" ++ flat "models::FileUpload::from(form.required_file(" := rfl
          have htext := @FieldReadText.requiredFile ident wire
          rw [hreader] at htext
          simpa only [FieldRead.code, FieldRead.binding, List.append_assoc] using htext
      | false =>
          have hreader : flat "= form.optional_file(" =
              flat "=" ++ flat "form.optional_file(" := rfl
          have htext := @FieldReadText.optionalFile ident wire
          rw [hreader] at htext
          simpa only [FieldRead.code, FieldRead.binding, List.append_assoc] using htext

/-- The form as which a body is read, if it is one. -/
def BodyRead.form? : BodyRead → Option FormRead
  | .form g => some g
  | .multipart g => some g
  | _ => none

/-- The reader of the form that a body is. -/
def BodyRead.source : BodyRead → String
  | .multipart _ => "read_multipart"
  | _ => "read_form"

theorem FormRead.text {read : BodyRead} {f : FormRead} (h : read.form? = some f) :
    FormText read (f.code read.source) := by
  have hreads : Pieces FieldReadText f.reads (f.reads.flatMap (·.code)) :=
    .flatMap FieldRead.text f.reads
  have hrecord : flat "let record = models::" = flat "let record =" ++ flat "models::" := rfl
  cases read with
  | json => cases h
  | xml => cases h
  | form g =>
      obtain rfl := Option.some.inj h
      have hsource : flat "let form = ::bindery::read_form(request).await?;" =
          flat "let form = ::bindery::" ++ flat "read_form" ++ flat "(request).await?;" := rfl
      have htext := FormText.form hreads
      rw [hsource, hrecord] at htext
      simpa only [FormRead.code, FieldRead.binding, BodyRead.source, modelPath, List.append_assoc]
        using htext
  | multipart g =>
      obtain rfl := Option.some.inj h
      have hsource : flat "let form = ::bindery::read_multipart(request).await?;" =
          flat "let form = ::bindery::" ++ flat "read_multipart" ++ flat "(request).await?;" := rfl
      have htext := FormText.multipart hreads
      rw [hsource, hrecord] at htext
      simpa only [FormRead.code, FieldRead.binding, BodyRead.source, modelPath, List.append_assoc]
        using htext

/-! ## Request bodies -/

/-- The text of a variant of a sum that is made or taken apart, before its members. -/
def variantStart (className tag : String) : Code :=
  flat "models::" ++ word className ++ flat "::" ++ word tag

/-- The text of the expression that makes a variant of the request sum from a body. -/
def acceptText (className : String) (a : BodyArm) (value : Code) : Code :=
  flat "Ok::<_, ::bindery::BodyError>(" ++
    (variantStart className a.media.tag ++ braces (word a.member ++ flat ":" ++ value) ++ flat ")")

/-- The text of the expression that reads a body of one media type.  XML is not read. -/
inductive DecodeText (className : String) : BodyArm → Code → Prop
  | json {media : Media} {member : String} :
      DecodeText className ⟨media, member, .json⟩
        (flat "::bindery::valid_body(async" ++
          (braces (acceptText className ⟨media, member, .json⟩
            (flat "::bindery::read_json(request).await?,")) ++ flat ".await)?"))
  | form {media : Media} {member : String} {read : BodyRead} {form : Code}
      (h : FormText read form) :
      DecodeText className ⟨media, member, read⟩
        (flat "::bindery::valid_body(async" ++
          (braces (form ++ acceptText className ⟨media, member, read⟩ (word "record")) ++
            flat ".await)?"))
  | xml {media : Media} {member : String} :
      DecodeText className ⟨media, member, .xml⟩
        (flat "::bindery::valid_body(::bindery::unsupported_media(" ++ literal media.mime ++
          flat "))?")

/-- One of the arms by which a handler reads a request body. -/
inductive ContentArm
  | decode (a : BodyArm)
  /-- There is no body, and none is needed. -/
  | absent
  /-- The body is missing, which is an error. -/
  | missing
deriving DecidableEq

/-- The arms by which a handler reads a request body. -/
def BodyDispatch.contentArms (b : BodyDispatch) : List ContentArm :=
  b.arms.map .decode ++ (if b.required then [] else [.absent]) ++ [.missing]

/-- The text of an arm by which a handler reads a request body. -/
inductive ContentArmText (className : String) (required : Bool) : ContentArm → Code → Prop
  | required {a : BodyArm} {decode : Code} (hrequired : required = true)
      (h : DecodeText className a decode) :
      ContentArmText className required (.decode a)
        (flat "Some(" ++ literal a.media.mime ++ (flat ") =>" ++ decode ++ flat ","))
  | optional {a : BodyArm} {decode : Code} (hrequired : required = false)
      (h : DecodeText className a decode) :
      ContentArmText className required (.decode a)
        (flat "Some(" ++ literal a.media.mime ++ (flat ") =>" ++
          (flat "Some(" ++ decode ++ flat ")") ++ flat ","))
  | absent : ContentArmText className required .absent (flat "None => None,")
  | missing :
      ContentArmText className required .missing
        (flat "_ => return Err(::bindery::RequestError::NoBodyFound.into()),")

/-- The text of the statement that reads a request body. -/
def BodyDispatchText (b : BodyDispatch) (c : Code) : Prop :=
  ∃ arms, Pieces (ContentArmText b.className b.required) b.contentArms arms ∧
    c = flat "let request_body = match ::bindery::primary_content_type(&header_map).as_deref()" ++
      braces arms ++ flat ";"

theorem BodyArm.decodeCode_text (className : String) (a : BodyArm) :
    DecodeText className a (a.decodeCode className) := by
  have haccept : ∀ (media : Media) (member : String) (read : BodyRead) (value : Code),
      flat "Ok::<_, ::bindery::BodyError>(" ++ (modelPath .sibling className ++ flat "::" ++
          word media.tag) ++ braces (word member ++ (flat ":" ++ value)) ++ flat ")" =
        acceptText className ⟨media, member, read⟩ value := by
    intro media member read value
    simp only [acceptText, variantStart, modelPath, List.append_assoc]
  obtain ⟨media, member, read⟩ := a
  cases read with
  | json =>
      have hvalue : flat ": ::bindery::read_json(request).await?," =
          flat ":" ++ flat "::bindery::read_json(request).await?," := rfl
      simp only [BodyArm.decodeCode, hvalue]
      rw [haccept media member .json, List.append_assoc]
      exact .json
  | xml => exact .xml
  | form f =>
      have hvalue : flat ": record" = flat ":" ++ word "record" := rfl
      simp only [BodyArm.decodeCode, hvalue]
      rw [haccept media member (.form f), List.append_assoc]
      exact .form (FormRead.text rfl)
  | multipart f =>
      have hvalue : flat ": record" = flat ":" ++ word "record" := rfl
      simp only [BodyArm.decodeCode, hvalue]
      rw [haccept media member (.multipart f), List.append_assoc]
      exact .form (FormRead.text rfl)

theorem BodyArm.text (className : String) (required : Bool) (a : BodyArm) :
    ContentArmText className required (.decode a) (a.code className required) := by
  have hdecode := a.decodeCode_text className
  cases required with
  | true =>
      have htext := ContentArmText.required rfl hdecode
      simpa only [BodyArm.code, if_true, List.append_assoc] using htext
  | false =>
      have hsome : flat "Some" ++ parens (a.decodeCode className) =
          flat "Some(" ++ a.decodeCode className ++ flat ")" := rfl
      have htext := ContentArmText.optional rfl hdecode
      rw [← hsome] at htext
      simpa only [BodyArm.code, Bool.false_eq_true, if_false, List.append_assoc] using htext

theorem BodyDispatch.text (b : BodyDispatch) : BodyDispatchText b b.code := by
  have harms : List.Forall₂ (ContentArmText b.className b.required) (b.arms.map .decode)
      (b.arms.map (·.code b.className b.required)) :=
    List.forall₂_map_left_iff.2 (texts_map fun a _ => a.text b.className b.required)
  have hlast : List.Forall₂ (ContentArmText b.className b.required) [.missing]
      [flat "_ => return Err(::bindery::RequestError::NoBodyFound.into()),"] :=
    .cons .missing .nil
  have habsent : List.Forall₂ (ContentArmText b.className b.required)
      (if b.required then [] else [.absent]) (if b.required then []
        else [flat "None => None,"]) := by
    cases b.required with
    | true => exact .nil
    | false => exact .cons .absent .nil
  refine ⟨_, ⟨_, List.rel_append (List.rel_append harms habsent) hlast, rfl⟩, ?_⟩
  unfold BodyDispatch.code
  rw [List.flatten_append, List.flatten_append, ← List.flatMap_def, List.flatten_singleton]
  cases b.required with
  | true => rfl
  | false => rfl

/-! ## Responses -/

/-- The text of the names that a pattern binds, or that a variant is made of. -/
def namesText (names : List String) : Code :=
  if names.isEmpty then [] else braces (commas (names.map word))

/-- The text of a status. -/
inductive StatusText : StatusSource → Code → Prop
  | fixed {n : Nat} : StatusText (.fixed n) (word (toString n))
  | body {binding : String} :
      StatusText (.body binding) (flat "i64::from(" ++ word binding ++ flat ".code)")

/-- The text of the statement that writes a header, which is a field of the record called
`binding`. -/
inductive HeaderWriteText (binding : String) : HeaderWrite → Code → Prop
  | required {wire field : String} :
      HeaderWriteText binding ⟨wire, field, true⟩
        (flat "writer.header(" ++ literal wire ++
          (flat ", &" ++ word binding ++ (flat "." ++ word field ++ flat ")?;")))
  | optional {wire field : String} :
      HeaderWriteText binding ⟨wire, field, false⟩
        (flat "if let Some(value) = &" ++ word binding ++
          (flat "." ++ word field ++
            braces (flat "writer.header(" ++ literal wire ++ flat ", value)?;")))

/-- The texts of the statements that register a file for deletion, if there is one, and that write
the body. -/
inductive BodyWriteText : BodyWrite → Code → Code → Prop
  | empty : BodyWriteText .empty [] (flat "writer.empty()")
  | file {binding : String} :
      BodyWriteText (.file binding) (flat "cleanup.remove_file(&" ++ word binding ++ flat ");")
        (flat "writer.file(&" ++ word binding ++ flat ").await")
  | json {binding : String} :
      BodyWriteText (.json binding) [] (flat "writer.json(&" ++ word binding ++ flat ")")

/-- The text of the arm that writes a response. -/
def DispatchArmText (className : String) (a : DispatchArm) (c : Code) : Prop :=
  ∃ status headers register write, StatusText a.status status ∧
    Pieces (HeaderWriteText a.headersBinding) a.headers headers ∧
    BodyWriteText a.body register write ∧
    c = variantStart className a.tag ++ namesText a.bindings ++
      (flat "=>" ++ braces (register ++
        ((if a.headers.isEmpty then flat "let writer" else flat "let mut writer") ++
          (flat "= ::bindery::ResponseWriter::from_code(" ++ status ++
            (flat ")?;" ++ (headers ++ write))))))

theorem StatusSource.text (s : StatusSource) : StatusText s s.code := by
  cases s with
  | fixed n => exact .fixed
  | body binding => exact .body

theorem HeaderWrite.text (binding : String) (h : HeaderWrite) :
    HeaderWriteText binding h (h.code binding) := by
  obtain ⟨wire, field, required⟩ := h
  cases required with
  | true =>
      have hcomma : flat ", &" = flat "," ++ flat "&" := rfl
      have htext := @HeaderWriteText.required binding wire field
      rw [hcomma] at htext
      simpa only [HeaderWrite.code, if_true, List.append_assoc] using htext
  | false =>
      have hvalue : flat "if let Some(value) = &" = flat "if let Some(value) =" ++ flat "&" := rfl
      have htext := @HeaderWriteText.optional binding wire field
      rw [hvalue] at htext
      simpa only [HeaderWrite.code, Bool.false_eq_true, if_false, List.append_assoc] using htext

theorem DispatchArm.text (className : String) (a : DispatchArm) :
    DispatchArmText className a (a.code className) := by
  obtain ⟨tag, bindings, status, headersBinding, headers, body⟩ := a
  have hheaders : Pieces (HeaderWriteText headersBinding) headers
      (headers.flatMap (·.code headersBinding)) :=
    .flatMap (HeaderWrite.text headersBinding) headers
  have hwriter : ∀ rest : Code, flat "let" ++ ((if headers.isEmpty then [] else flat "mut") ++
      (flat "writer = ::bindery::ResponseWriter::from_code(" ++ rest)) =
      (if headers.isEmpty then flat "let writer" else flat "let mut writer") ++
        (flat "= ::bindery::ResponseWriter::from_code(" ++ rest) := by
    intro rest
    have hbinds : flat "writer = ::bindery::ResponseWriter::from_code(" =
        flat "writer" ++ flat "= ::bindery::ResponseWriter::from_code(" := rfl
    have hmut : flat "let mut writer" = flat "let" ++ (flat "mut" ++ flat "writer") := rfl
    have hplain : flat "let writer" = flat "let" ++ flat "writer" := rfl
    cases headers.isEmpty <;> simp [hbinds, hmut, hplain]
  have hnames : (if bindings.isEmpty then [] else braces (commas (bindings.map word))) =
      namesText bindings := rfl
  cases body with
  | empty =>
      refine ⟨_, _, _, _, status.text, hheaders, .empty, ?_⟩
      simp only [DispatchArm.code, variantStart, modelPath, List.append_assoc, hwriter, hnames]
  | file binding =>
      refine ⟨_, _, _, _, status.text, hheaders, .file, ?_⟩
      simp only [DispatchArm.code, variantStart, modelPath, List.append_assoc, hwriter, hnames]
  | json binding =>
      refine ⟨_, _, _, _, status.text, hheaders, .json, ?_⟩
      simp only [DispatchArm.code, variantStart, modelPath, List.append_assoc, hwriter, hnames]

/-! ## Handlers -/

/-- What a handler reads from a request. -/
inductive Input
  | param (r : ParamRead)
  | body (b : BodyDispatch)
deriving DecidableEq

def Input.name : Input → String
  | .param r => r.binding
  | .body _ => requestIdent

/-- The name under which a handler has the parameters of one location. -/
def sourceName : Location → String
  | .path => "path_params"
  | .query => "query_params"
  | .header => "header_map"

def Input.statement (i : Input) : Statement String Input where
  uses :=
    match i with
    | .param r => [sourceName r.location]
    | .body b => ["header_map", "request"] ++ if b.storesFiles then ["cleanup"] else []
  introduces := some (i.name, .value i)
  code :=
    match i with
    | .param r => r.code
    | .body b => b.code

namespace Handler

def inputs (h : Handler) : List Input :=
  h.reads.map .param ++ h.body.toList.map .body

/-- A part of the request under the name that a handler has for it. -/
def taken (name : String) (code : Code) : Statement String Input where
  introduces := some (name, .own)
  code

/-- What a handler takes from the request. -/
def parts (h : Handler) : List (Statement String Input) :=
  let reads (l : Location) : Bool := h.reads.any (·.location == l)
  let texts := "::std::collections::HashMap<String, String>"
  [taken "server"
      (flat "::axum::extract::State(server): ::axum::extract::State<::std::sync::Arc<S>>")] ++
    (if reads .path then [taken "path_params"
      (flat "::axum::extract::Path(path_params): ::axum::extract::Path<" ++ flat texts ++ flat ">")]
    else []) ++
    (if reads .query then [taken "query_params"
      (flat "::axum::extract::Query(query_params): ::axum::extract::Query<" ++
        flat texts ++ flat ">")]
    else []) ++
    (if reads .header || h.body.isSome then
      [taken "header_map" (flat "header_map: ::axum::http::HeaderMap")] else []) ++
    (if h.body.isSome then [taken "request" (flat "request: ::axum::extract::Request")] else [])

/-- The statement that sets up the deletion of files. -/
def setup (h : Handler) : Statement String Input where
  introduces := some (if h.cleansUp then "cleanup" else "_cleanup", .own)
  code :=
    flat (if h.cleansUp then "let mut cleanup = ::bindery::CleanupRegistry::new();"
      else "let _cleanup = ::bindery::CleanupRegistry::new();")

/-- The statement that calls the method of the contract. -/
def call (h : Handler) : Statement String Input where
  uses := ["server"]
  mentions := h.arguments
  introduces := some ("response", .own)
  code :=
    flat "let response = server." ++ word h.ident ++ flat "(" ++ commas (h.arguments.map word) ++
      flat ").await?;"

def preparation (h : Handler) : List (Statement String Input) :=
  h.setup :: h.inputs.map Input.statement

/-- The statements up to the call. -/
def statements (h : Handler) : List (Statement String Input) :=
  h.preparation ++ [h.call]

/-- The code of a handler is that of its statements, and after them of what writes the response. -/
theorem code_eq (contract : String) (h : Handler) :
    h.code contract =
      docAttr ("`" ++ h.method.upperName ++ " " ++ h.path ++ "`") ++
        flat "async fn" ++ word h.ident ++ flat "<S:" ++ word contract ++ flat ">(" ++
        commas (h.parts.map (·.code)) ++
        flat ") -> Result<::axum::response::Response, ::bindery::HandlerError>" ++
        braces (h.statements.flatMap (·.code) ++
          (flat "match response" ++ braces (h.arms.flatMap (·.code h.response)))) := by
  have hparts : h.parts.map (·.code) = h.extractors := by
    unfold parts extractors taken
    simp only [List.map_append, List.map_cons, List.map_nil, apply_ite (List.map _)]
  have hinputs : (h.inputs.map Input.statement).flatMap (·.code) =
      h.reads.flatMap (·.code) ++ (h.body.map (·.code)).getD [] := by
    cases hb : h.body <;> simp [inputs, hb, Input.statement, List.flatMap_map]
  have hcall : flat ").await?; match response" = flat ").await?;" ++ flat "match response" := rfl
  have hsetup : h.setup.code =
      flat (if h.cleansUp then "let mut cleanup = ::bindery::CleanupRegistry::new();"
        else "let _cleanup = ::bindery::CleanupRegistry::new();") := rfl
  unfold code statements preparation
  rw [hparts, hcall, List.flatMap_append, List.flatMap_cons, hinputs, hsetup]
  simp only [call, List.flatMap_cons, List.flatMap_nil, List.append_assoc, List.append_nil]

end Handler

/-- What a handler reads is part of its code. -/
theorem Handler.infix_of_mem_inputs {h : Handler} {i : Input} (hi : i ∈ h.inputs)
    (contract : String) : i.statement.code <:+: h.code contract := by
  have hmem : i.statement ∈ h.statements :=
    List.mem_append_left _ (List.mem_cons_of_mem _ (List.mem_map.2 ⟨i, hi, rfl⟩))
  rw [Handler.code_eq]
  refine List.IsInfix.trans ?_ (List.suffix_append _ _).isInfix
  refine List.IsInfix.trans ?_ (Code.infix_braces _)
  exact List.IsInfix.trans (infix_flatMap hmem) (List.prefix_append _ _).isInfix

/-- The text of a handler. -/
def HandlerText (contract : String) (h : Handler) (c : Code) : Prop :=
  ∃ reads body arms, Pieces ParamReadText h.reads reads ∧
    Pieces BodyDispatchText h.body.toList body ∧ Pieces (DispatchArmText h.response) h.arms arms ∧
    c = docAttr ("`" ++ h.method.upperName ++ " " ++ h.path ++ "`") ++
      (flat "async fn" ++ word h.ident ++
        (flat "<S:" ++ word contract ++ (flat ">(" ++ commas (h.parts.map (·.code)) ++
          (flat ") -> Result<::axum::response::Response, ::bindery::HandlerError>" ++
            braces (h.setup.code ++ (reads ++ (body ++
              (h.call.code ++ (flat "match response" ++ braces arms)))))))))

theorem Handler.text (contract : String) (h : Handler) :
    HandlerText contract h (h.code contract) := by
  have hbody : Pieces BodyDispatchText h.body.toList (h.body.toList.flatMap (·.code)) :=
    .flatMap BodyDispatch.text _
  have hinputs : (h.inputs.map Input.statement).flatMap (·.code) =
      h.reads.flatMap (·.code) ++ h.body.toList.flatMap (·.code) := by
    unfold inputs
    rw [List.map_append, List.flatMap_append, List.map_map, List.map_map, List.flatMap_map,
      List.flatMap_map]
    rfl
  refine ⟨_, _, _, .flatMap ParamRead.text h.reads, hbody,
    .flatMap (DispatchArm.text h.response) h.arms, ?_⟩
  rw [Handler.code_eq]
  unfold statements preparation
  rw [List.flatMap_append, List.flatMap_cons, hinputs, List.flatMap_singleton]
  simp only [List.append_assoc]

section HandlerText

variable {contract : String} {h : Handler} {c : Code}

/-- The arms of a handler are the last thing in it. -/
theorem HandlerText.arms (hc : HandlerText contract h c) :
    ∃ arms, Pieces (DispatchArmText h.response) h.arms arms ∧
      flat "match response" ++ braces arms <:+: c := by
  obtain ⟨reads, body, arms, -, -, harms, rfl⟩ := hc
  refine ⟨arms, harms, ?_⟩
  iterate 5 apply List.infix_append_of_infix_right
  refine List.IsInfix.trans ?_ (Code.infix_braces _)
  iterate 4 apply List.infix_append_of_infix_right
  exact List.infix_rfl

/-- A request body is read behind the parameters. -/
theorem HandlerText.body (hc : HandlerText contract h c) {b : BodyDispatch} (hb : h.body = some b) :
    ∃ text, BodyDispatchText b text ∧ text <:+: c := by
  obtain ⟨reads, body, arms, -, hbody, -, rfl⟩ := hc
  rw [hb] at hbody
  obtain ⟨text, htext, hpart⟩ := hbody.exists_infix List.mem_cons_self
  refine ⟨text, htext, hpart.trans ?_⟩
  iterate 5 apply List.infix_append_of_infix_right
  refine List.IsInfix.trans ?_ (Code.infix_braces _)
  iterate 2 apply List.infix_append_of_infix_right
  exact List.infix_append_of_infix_left List.infix_rfl

end HandlerText

/-! ## Controllers -/

/-- The text of an entry of a route: its method with its handler. -/
inductive EntryText : Method × String → Code → Prop
  | entry {method : Method} {ident : String} :
      EntryText (method, ident) (word method.name ++ flat "(" ++ word ident ++ flat "::<S>)")

/-- The text of a route: one call for the path, with the entries in a chain. -/
inductive RouteText : Route → Code → Prop
  | route {path : String} {entries : List (Method × String)} {texts : List Code}
      (h : List.Forall₂ EntryText entries texts) :
      RouteText ⟨path, entries⟩
        (flat ".route(" ++ literal path ++ (flat ", ::axum::routing::" ++
          (List.intercalate (flat ".") texts ++ flat ")")))

theorem Route.text (r : Route) : RouteText r r.code := by
  have hentries : List.Forall₂ EntryText r.entries (r.entries.map fun e =>
      word e.1.name ++ flat "(" ++ word e.2 ++ flat "::<S>)") := texts_map fun _ _ => .entry
  have htext : RouteText r _ := .route hentries
  unfold Route.code
  rw [List.append_assoc, List.append_assoc]
  exact htext

/-- The text of a controller: what it holds, how it is made, and its router. -/
def ControllerText (contract controller : String) (rs : List Route) (c : Code) : Prop :=
  ∃ routes, Pieces RouteText rs routes ∧
    c = flat "pub struct" ++ word controller ++ flat "<S>" ++
      braces (flat "server: ::std::sync::Arc<S>,") ++
      flat "impl<S> Clone for" ++ word controller ++ flat "<S>" ++
      braces (flat "fn clone(&self) -> Self" ++
        braces (flat "Self" ++ braces (flat "server: ::std::sync::Arc::clone(&self.server),"))) ++
      flat "impl<S:" ++ word contract ++ flat ">" ++ word controller ++ flat "<S>" ++
      braces (
        flat "pub fn new(server: S) -> Self" ++
          braces (flat "Self::from_arc(::std::sync::Arc::new(server))") ++
        docAttr " Shares an implementation that is also used elsewhere." ++
          flat "pub fn from_arc(server: ::std::sync::Arc<S>) -> Self" ++
          braces (flat "Self" ++ braces (flat "server")) ++
        docAttr " A router with one route per operation." ++
          flat "pub fn into_router(self) -> ::axum::Router" ++
          braces (flat "::axum::Router::new()" ++ routes ++ flat ".with_state(self.server)") ++
        docAttr " Adds every route to an existing router." ++
          flat "pub fn bind(self, router: ::axum::Router) -> ::axum::Router" ++
          braces (flat "router.merge(self.into_router())"))

theorem controllerCode_text (contract controller : String) (rs : List Route) :
    ControllerText contract controller rs (controllerCode contract controller rs) :=
  ⟨_, .flatMap Route.text rs, rfl⟩

end Emit
end ApiContract
