import ApiContract.Emit.Client
import ApiContract.Proofs.HandlerTexts

/-!
# The texts of client methods

**Input:** the methods of a client.

As for handlers, generated code is described by rules for its tokens, which do without the functions
that print.

**Results:**

* `ClientMethodText`: the text of a client method, made up of those of the arguments that it sends
  (`SentParamText`), of the arms that send a body (`EncodeArmText`) and of those that read a
  response (`StatusArmText`);
* `ClientMethod.text`: what is printed is such a text;
* `ClientMethod.code_eq`: the code of a method is that of its statements
  (`ClientMethod.statements`);
* `ClientMethod.armsCode_text`: the arms that read a response are written one after another;
* `clientCode_text`: a client has the texts of its methods (`ClientText`).
-/

namespace ApiContract
namespace Emit

open Code (Meaning Statement flat word literal braces parens commas docAttrs)

/-! ## Arguments that are sent -/

/-- The text of what sends an argument.  Parts of the path are given in pairs with their names. -/
inductive SentParamText : SentParam → Code → Prop
  | path {ident wire : String} {required : Bool} :
      SentParamText ⟨ident, wire, .path, required⟩
        (flat "(" ++ literal wire ++ (flat "," ++ word ident ++ flat ".to_string())"))
  | query {ident wire : String} :
      SentParamText ⟨ident, wire, .query, true⟩
        (flat "query.push((" ++ literal wire ++ (flat "," ++ word ident ++ flat ".to_string()));"))
  | optionalQuery {ident wire : String} :
      SentParamText ⟨ident, wire, .query, false⟩
        (flat "if let Some(value) = &" ++ word ident ++
          braces (flat "query.push((" ++ literal wire ++ flat ", value.to_string()));"))
  | header {ident wire : String} :
      SentParamText ⟨ident, wire, .header, true⟩
        (flat "request = request.header(" ++ literal wire ++
          (flat "," ++ word ident ++ flat ".to_string());"))
  | optionalHeader {ident wire : String} :
      SentParamText ⟨ident, wire, .header, false⟩
        (flat "if let Some(value) = &" ++ word ident ++
          braces (flat "request = request.header(" ++ literal wire ++
            flat ", value.to_string());"))

theorem SentParam.text (q : SentParam) : SentParamText q q.code := by
  obtain ⟨ident, wire, location, required⟩ := q
  have hvalue : flat ", value.to_string()));" =
      flat "," ++ (word "value" ++ flat ".to_string()));") := rfl
  have hvalue' : flat ", value.to_string());" =
      flat "," ++ (word "value" ++ flat ".to_string());") := rfl
  cases location with
  | path =>
      have hpair : parens (commas [literal wire, word ident ++ flat ".to_string()"]) =
          flat "(" ++ literal wire ++ (flat "," ++ word ident ++ flat ".to_string())") := rfl
      have hcode : (SentParam.mk ident wire .path required).code =
          parens (commas [literal wire, word ident ++ flat ".to_string()"]) := by
        cases required <;> rfl
      rw [hcode, hpair]
      exact .path
  | query =>
      cases required with
      | true =>
          have htext := @SentParamText.query ident wire
          simpa only [SentParam.code, Bool.true_or, if_true, List.append_assoc] using htext
      | false =>
          have htext := @SentParamText.optionalQuery ident wire
          rw [hvalue] at htext
          simpa [SentParam.code] using htext
  | header =>
      cases required with
      | true =>
          have htext := @SentParamText.header ident wire
          simpa only [SentParam.code, Bool.true_or, if_true, List.append_assoc] using htext
      | false =>
          have htext := @SentParamText.optionalHeader ident wire
          rw [hvalue'] at htext
          simpa [SentParam.code] using htext

/-! ## Request bodies -/

/-- The text of the block that sends a part of a multipart body, which is a field of the record
called `record`. -/
inductive SentPartText (record : String) : SentPart → Code → Prop
  | required {field wire : String} :
      SentPartText record ⟨field, wire, false, true⟩
        (braces (flat "let value = &" ++ word record ++ (flat "." ++ word field ++
          (flat "; form = form.text(" ++ literal wire ++ flat ", value.to_string());"))))
  | optional {field wire : String} :
      SentPartText record ⟨field, wire, false, false⟩
        (braces (flat "if let Some(value) = &" ++ word record ++ (flat "." ++ word field ++
          braces (flat "form = form.text(" ++ literal wire ++ flat ", value.to_string());"))))
  | requiredFile {field wire : String} :
      SentPartText record ⟨field, wire, true, true⟩
        (braces (flat "let upload = &" ++ word record ++ (flat "." ++ word field ++
          (flat "; form = form.part(" ++ literal wire ++
            (flat ", ::bindery::client::file_part(&upload.name, &upload.file," ++
              flat "&upload.content_type).await?,);")))))
  | optionalFile {field wire : String} :
      SentPartText record ⟨field, wire, true, false⟩
        (braces (flat "if let Some(upload) = &" ++ word record ++ (flat "." ++ word field ++
          braces (flat "form = form.part(" ++ literal wire ++
            (flat ", ::bindery::client::file_part(&upload.name, &upload.file," ++
              flat "&upload.content_type).await?,);")))))

/-- The text of the arm that sends a body of one media type.  XML is not sent. -/
inductive EncodeArmText (className : String) : EncodeArm → Code → Prop
  | json {media : Media} {member : String} :
      EncodeArmText className ⟨media, member, .json⟩
        (variantStart className media.tag ++ (braces (word member) ++
          (flat "=> request.json(&" ++ word member ++ flat "),")))
  | form {media : Media} {member : String} :
      EncodeArmText className ⟨media, member, .form⟩
        (variantStart className media.tag ++ (braces (word member) ++
          (flat "=> request.form(&" ++ word member ++ flat "),")))
  | multipart {media : Media} {member : String} {parts : List SentPart} {text : Code}
      (h : Pieces (SentPartText member) parts text) :
      EncodeArmText className ⟨media, member, .multipart parts⟩
        (variantStart className media.tag ++ (braces (word member) ++
          (flat "=>" ++ braces (flat "let mut form = ::reqwest::multipart::Form::new();" ++
            (text ++ flat "request.multipart(form)")))))
  | unsupported {media : Media} {member : String} :
      EncodeArmText className ⟨media, member, .unsupported⟩
        (variantStart className media.tag ++ (braces (flat "..") ++
          (flat "=>" ++
            braces (flat "return Err(::bindery::ClientError::UnsupportedMediaType(" ++
              (literal media.mime ++ flat ".to_string()));")))))

/-- The text of the statement that sends a request body. -/
inductive BodyEncodeText : BodyEncode → Code → Prop
  | required {className : String} {arms : List EncodeArm} {text : Code}
      (h : Pieces (EncodeArmText className) arms text) :
      BodyEncodeText ⟨className, true, arms⟩
        (flat "request = match request_body" ++ braces text ++ flat ";")
  | optional {className : String} {arms : List EncodeArm} {text : Code}
      (h : Pieces (EncodeArmText className) arms text) :
      BodyEncodeText ⟨className, false, arms⟩
        (flat "if let Some(request_body) = request_body" ++
          braces (flat "request = match request_body" ++ braces text ++ flat ";"))

theorem SentPart.text (record : String) (p : SentPart) :
    SentPartText record p (p.code record) := by
  have hfile : flat (", ::bindery::client::file_part(&upload.name, &upload.file, " ++
      "&upload.content_type)") ++ flat ".await?,);" =
      flat ", ::bindery::client::file_part(&upload.name, &upload.file," ++
        flat "&upload.content_type).await?,);" := by
    decide +kernel
  obtain ⟨field, wire, isFile, required⟩ := p
  cases isFile with
  | true =>
      cases required with
      | true =>
          have hlet : flat "let upload = &" = flat "let" ++ (word "upload" ++
            (flat "=" ++ flat "&")) := rfl
          have hform : flat "; form = form.part(" = flat ";" ++ flat "form = form.part(" := rfl
          have htext := @SentPartText.requiredFile record field wire
          rw [hlet, hform, ← hfile] at htext
          simpa [SentPart.code] using htext
      | false =>
          have hlet : flat "if let Some(upload) = &" = flat "if let Some(" ++ (word "upload" ++
            (flat ") =" ++ flat "&")) := rfl
          have htext := @SentPartText.optionalFile record field wire
          rw [hlet, ← hfile] at htext
          simpa [SentPart.code] using htext
  | false =>
      cases required with
      | true =>
          have hlet : flat "let value = &" = flat "let" ++ (word "value" ++
            (flat "=" ++ flat "&")) := rfl
          have hform : flat "; form = form.text(" = flat ";" ++ flat "form = form.text(" := rfl
          have htext := @SentPartText.required record field wire
          rw [hlet, hform] at htext
          simpa [SentPart.code] using htext
      | false =>
          have hlet : flat "if let Some(value) = &" = flat "if let Some(" ++ (word "value" ++
            (flat ") =" ++ flat "&")) := rfl
          have htext := @SentPartText.optional record field wire
          rw [hlet] at htext
          simpa [SentPart.code] using htext

theorem EncodeArm.text (className : String) (a : EncodeArm) :
    EncodeArmText className a (a.code className) := by
  obtain ⟨media, member, send⟩ := a
  cases send with
  | json =>
      have hsend : flat "=> request.json(&" = flat "=>" ++ flat "request.json(&" := rfl
      have htext := @EncodeArmText.json className media member
      rw [hsend] at htext
      simpa [EncodeArm.code, variantStart, modelPath] using htext
  | form =>
      have hsend : flat "=> request.form(&" = flat "=>" ++ flat "request.form(&" := rfl
      have htext := @EncodeArmText.form className media member
      rw [hsend] at htext
      simpa [EncodeArm.code, variantStart, modelPath] using htext
  | unsupported =>
      have htext := @EncodeArmText.unsupported className media member
      simpa [EncodeArm.code, variantStart, modelPath] using htext
  | multipart parts =>
      have htext := @EncodeArmText.multipart className media member parts _
        (.flatMap (SentPart.text member) parts)
      simpa [EncodeArm.code, variantStart, modelPath] using htext

theorem BodyEncode.text (b : BodyEncode) : BodyEncodeText b b.code := by
  obtain ⟨className, required, arms⟩ := b
  have harms : Pieces (EncodeArmText className) arms (arms.flatMap (·.code className)) :=
    .flatMap (EncodeArm.text className) arms
  cases required with
  | true => exact .required harms
  | false => exact .optional harms

/-! ## Responses -/

/-- The text of the field that holds a response header. -/
inductive HeaderReadText : HeaderRead → Code → Prop
  | required {field wire : String} {q : Primitive} {parser : Code} (h : (parser, q) ∈ parsers) :
      HeaderReadText ⟨field, wire, true, q⟩
        (word field ++ (flat ": ::bindery::client::required_header(response.headers()," ++
          literal wire ++ (flat "," ++ parser ++ flat ")?,")))
  | optional {field wire : String} {q : Primitive} {parser : Code} (h : (parser, q) ∈ parsers) :
      HeaderReadText ⟨field, wire, false, q⟩
        (word field ++ (flat ": ::bindery::client::optional_header(response.headers()," ++
          literal wire ++ (flat "," ++ parser ++ flat ")?,")))

/-- The text of the statement that reads the headers of a response, if it has any. -/
inductive HeadersReadText : Option (String × CodeType × List HeaderRead) → Code → Prop
  | none : HeadersReadText none []
  | some {binding : String} {t : CodeType} {fields : List HeaderRead} {type text : Code}
      (htype : TypeText .sibling t type) (h : Pieces HeaderReadText fields text) :
      HeadersReadText (some (binding, t, fields))
        (flat "let" ++ word binding ++ (flat "=" ++ type ++ (braces text ++ flat ";")))

/-- The text of the statement that reads the body of a response, if it has one. -/
inductive ResponseReadText : ResponseRead → Code → Prop
  | empty : ResponseReadText .empty []
  | file {binding : String} :
      ResponseReadText (.file binding)
        (flat "let" ++ word binding ++
          flat "= ::bindery::client::download_to_temp(response).await?;")
  | json {binding : String} {t : CodeType} {type : Code} (h : TypeText .sibling t type) :
      ResponseReadText (.json binding t)
        (flat "let" ++ word binding ++ (flat "= response.json::<" ++ type ++ flat ">().await?;"))

/-- The text of what turns a response into a variant: its headers and its body are read, and the
variant is made of them. -/
def VariantReadText (className : String) (b : DecodeArm) (c : Code) : Prop :=
  ∃ headers body, HeadersReadText b.headers headers ∧ ResponseReadText b.body body ∧
    c = headers ++ (body ++
      (flat "Ok(" ++ (variantStart className b.tag ++ namesText b.bindings) ++ flat ")"))

/-- One of the arms by which a client method reads a response: it gives a variant, or the error for
statuses that are not declared. -/
inductive StatusArm
  | variant (b : DecodeArm)
  | unexpected

/-- The text of an arm by which a client method reads a response. -/
inductive StatusArmText (className : String) : StatusArm → Code → Prop
  | fixed {b : DecodeArm} {n : Nat} {read : Code} (hstatus : b.status = some n)
      (h : VariantReadText className b read) :
      StatusArmText className (.variant b) (word (toString n) ++ (flat "=>" ++ braces read))
  | default {b : DecodeArm} {read : Code} (hstatus : b.status = none)
      (h : VariantReadText className b read) :
      StatusArmText className (.variant b) (flat "_ =>" ++ braces read)
  | unexpected :
      StatusArmText className .unexpected
        (flat "_ => Err(::bindery::client::unexpected_status(response).await),")

theorem HeaderRead.text (h : HeaderRead) : HeaderReadText h h.code := by
  obtain ⟨field, wire, required, q⟩ := h
  have hparser := scalarReader_mem_parsers q
  cases required with
  | true =>
      have hreader : flat ": ::bindery::client::required_header(response.headers()," =
          flat ":" ++ (flat "::bindery::client::required_header" ++ flat "(response.headers(),") :=
        rfl
      have htext := @HeaderReadText.required field wire q _ hparser
      rw [hreader] at htext
      simpa [HeaderRead.code] using htext
  | false =>
      have hreader : flat ": ::bindery::client::optional_header(response.headers()," =
          flat ":" ++ (flat "::bindery::client::optional_header" ++ flat "(response.headers(),") :=
        rfl
      have htext := @HeaderReadText.optional field wire q _ hparser
      rw [hreader] at htext
      simpa [HeaderRead.code] using htext

theorem DecodeArm.text (className : String) (b : DecodeArm) :
    VariantReadText className b (b.bodyCode className) := by
  obtain ⟨status, tag, bindings, headers, body⟩ := b
  have hnames : (if bindings.isEmpty then [] else braces (commas (bindings.map word))) =
      namesText bindings := rfl
  -- The headers stand in front of what is read without them.
  have hheaders : ∃ heads, HeadersReadText headers heads ∧
      (DecodeArm.mk status tag bindings headers body).bodyCode className =
        heads ++ (DecodeArm.mk status tag bindings none body).bodyCode className := by
    cases headers with
    | none => exact ⟨[], .none, rfl⟩
    | some e =>
        obtain ⟨binding, type, fields⟩ := e
        refine ⟨_, .some (type.text .sibling) (.flatMap HeaderRead.text fields), ?_⟩
        simp only [DecodeArm.bodyCode, List.append_assoc, List.nil_append]
  have hbody : ∃ read, ResponseReadText body read ∧
      (DecodeArm.mk status tag bindings none body).bodyCode className =
        read ++ (flat "Ok(" ++ (variantStart className tag ++ namesText bindings) ++
          flat ")") := by
    cases body with
    | empty =>
        refine ⟨_, .empty, ?_⟩
        simp only [DecodeArm.bodyCode, variantStart, modelPath, hnames, List.append_assoc,
          List.nil_append]
    | file binding =>
        refine ⟨_, .file, ?_⟩
        simp only [DecodeArm.bodyCode, variantStart, modelPath, hnames, List.append_assoc,
          List.nil_append]
    | json binding type =>
        refine ⟨_, .json (type.text .sibling), ?_⟩
        simp only [DecodeArm.bodyCode, variantStart, modelPath, hnames, List.append_assoc,
          List.nil_append]
  obtain ⟨heads, hheads, hcode⟩ := hheaders
  obtain ⟨read, hread, htail⟩ := hbody
  rw [hcode, htail]
  exact ⟨heads, read, hheads, hread, rfl⟩

/-! ### Arms -/

namespace ClientMethod

/-- The arm for all statuses without one of their own. -/
def lastArm (k : ClientMethod) : StatusArm :=
  k.defaultArm?.elim .unexpected .variant

/-- The arms by which a method reads responses. -/
def statusArms (k : ClientMethod) : List StatusArm :=
  k.fixedArms.map .variant ++ [k.lastArm]

/-- The last arm is for every status. -/
theorem lastArm_cases (k : ClientMethod) :
    (k.defaultArm? = none ∧ k.lastArm = .unexpected) ∨
      ∃ b, k.defaultArm? = some b ∧ b.status = none ∧ k.lastArm = .variant b := by
  unfold lastArm
  cases hd : k.defaultArm? with
  | none => exact Or.inl ⟨rfl, rfl⟩
  | some b => exact Or.inr ⟨b, rfl, by simpa using List.find?_some hd, rfl⟩

/-- The code of an arm with a status of its own. -/
def fixedCode (response : String) (b : DecodeArm) : Code :=
  match b.status with
  | some n => word (toString n) ++ flat "=>" ++ braces (b.bodyCode response)
  | none => []

theorem fixedCode_of_some {response : String} {b : DecodeArm} {n : Nat} (hn : b.status = some n) :
    fixedCode response b = word (toString n) ++ (flat "=>" ++ braces (b.bodyCode response)) := by
  simp only [fixedCode, hn, List.append_assoc]

/-- Arms without a status of their own are left out. -/
theorem flatMap_fixedCode (k : ClientMethod) :
    k.arms.flatMap (fixedCode k.response) = k.fixedArms.flatMap (fixedCode k.response) := by
  refine flatMap_eq_flatMap_filter fun b => ?_
  cases hb : b.status <;> simp [fixedCode, hb]

/-- The arms of a method are those with a status of their own and the last one. -/
theorem armsCode_eq (k : ClientMethod) : ∃ text, StatusArmText k.response k.lastArm text ∧
    k.armsCode = k.arms.flatMap (fixedCode k.response) ++ text := by
  unfold armsCode
  rcases k.lastArm_cases with ⟨hd, hl⟩ | ⟨b, hd, hb, hl⟩
  · rw [hd, hl]
    exact ⟨_, .unexpected, rfl⟩
  · rw [hd, hl]
    exact ⟨_, .default hb (b.text k.response), rfl⟩

/-- The arms of a method are written one after another, that for all other statuses last. -/
theorem armsCode_text (k : ClientMethod) :
    Pieces (StatusArmText k.response) k.statusArms k.armsCode := by
  have hfixed : List.Forall₂ (StatusArmText k.response) (k.fixedArms.map .variant)
      (k.fixedArms.map (fixedCode k.response)) := by
    refine List.forall₂_map_left_iff.2 (texts_map fun b hb => ?_)
    obtain ⟨n, hn⟩ := Option.isSome_iff_exists.1 (List.mem_filter.1 hb).2
    rw [fixedCode_of_some hn]
    exact .fixed hn (b.text k.response)
  obtain ⟨text, htext, hcode⟩ := k.armsCode_eq
  refine ⟨_, List.rel_append hfixed (.cons htext .nil), ?_⟩
  rw [hcode, flatMap_fixedCode, List.flatMap_def, List.flatten_append, List.flatten_singleton]

end ClientMethod

/-! ## Client methods -/

/-- The name under which a method collects the query, if there is one. -/
def queryNames (hasQuery : Bool) : List String :=
  if hasQuery then ["query"] else []

def SentParam.statement (collector : String) (q : SentParam) :
    Statement SentParam ContractParam where
  uses := [collector]
  mentions := [q]
  code := q.code

namespace ClientMethod

def entry (k : ClientMethod) : Assoc String (Meaning ContractParam) :=
  k.params.map fun p => (p.ident, .value p)

/-- The statement that fills the path. -/
def addressing (k : ClientMethod) : Statement SentParam ContractParam where
  mentions := k.sentIn .path
  introduces := some ("url", .own)
  code :=
    flat "let url = ::bindery::client::endpoint_url(&self.base_url," ++ literal k.path ++
      flat ", &[" ++ commas ((k.sentIn .path).map (·.code)) ++ flat "])?;"

def hasQuery (k : ClientMethod) : Bool :=
  !(k.sentIn .query).isEmpty

def querySetup : Statement SentParam ContractParam where
  introduces := some ("query", .own)
  code := flat "let mut query: Vec<(&str, String)> = Vec::new();"

/-- The statements that collect the query, if there is one. -/
def querying (k : ClientMethod) : List (Statement SentParam ContractParam) :=
  if k.hasQuery then querySetup :: (k.sentIn .query).map (·.statement "query") else []

/-- The statement that makes the request. -/
def requesting (k : ClientMethod) : Statement SentParam ContractParam where
  uses := "url" :: queryNames k.hasQuery
  introduces := some ("request", .own)
  code :=
    flat (if (k.sentIn .header).isEmpty && k.body.isNone then "let request"
      else "let mut request") ++
      flat "= self.client." ++ word k.method.name ++ flat "(url)" ++
      (if (k.sentIn .query).isEmpty then [] else flat ".query(&query)") ++ flat ";"

/-- The statements that send the parameters. -/
def statements (k : ClientMethod) : List (Statement SentParam ContractParam) :=
  k.addressing :: (k.querying ++ k.requesting :: (k.sentIn .header).map (·.statement "request"))

/-- The code of a method is that of its statements, and after them of what sends the body and reads
the response. -/
theorem code_eq (k : ClientMethod) :
    k.code =
      docAttrs k.doc ++ flat "pub async fn" ++ word k.ident ++ paramsCode k.params ++
        flat "-> Result<" ++ modelPath .sibling k.response ++ flat ", ::bindery::ClientError>" ++
        braces (k.statements.flatMap (·.code) ++
          ((k.body.map (·.code)).getD [] ++
            (flat "let response = request.send().await?; match response.status().as_u16()" ++
              braces k.armsCode))) := by
  have hsends : ∀ (collector : String) (qs : List SentParam),
      (qs.map (·.statement collector)).flatMap (·.code) = qs.flatMap (·.code) := by
    intro collector qs
    rw [List.flatMap_map]
    rfl
  have hquery : k.querying.flatMap (·.code) =
      if (k.sentIn .query).isEmpty then []
      else flat "let mut query: Vec<(&str, String)> = Vec::new();" ++
        (k.sentIn .query).flatMap (·.code) := by
    unfold querying hasQuery
    cases (k.sentIn .query).isEmpty with
    | true => rfl
    | false =>
        simp only [Bool.not_false, if_true, List.flatMap_cons, hsends]
        rfl
  unfold code statements
  rw [List.flatMap_cons, List.flatMap_append, List.flatMap_cons, hsends, hquery]
  simp only [addressing, requesting, List.append_assoc]

theorem infix_of_body {k : ClientMethod} {r : BodyEncode} (hr : k.body = some r) :
    r.code <:+: k.code := by
  rw [code_eq, hr]
  refine List.IsInfix.trans ?_ (List.suffix_append _ _).isInfix
  refine List.IsInfix.trans ?_ (Code.infix_braces _)
  exact List.infix_append' _ _ _

theorem armsCode_infix (k : ClientMethod) : k.armsCode <:+: k.code := by
  have harms : k.armsCode <:+:
      flat "let response = request.send().await?; match response.status().as_u16()" ++
        braces k.armsCode :=
    (Code.infix_braces _).trans (List.suffix_append _ _).isInfix
  rw [code_eq]
  refine List.IsInfix.trans ?_ (List.suffix_append _ _).isInfix
  refine List.IsInfix.trans ?_ (Code.infix_braces _)
  exact (harms.trans (List.suffix_append _ _).isInfix).trans (List.suffix_append _ _).isInfix

end ClientMethod

/-- The text of a client method. -/
def ClientMethodText (k : ClientMethod) (c : Code) : Prop :=
  ∃ params paths query headers body arms, ParamsText k.params params ∧
    List.Forall₂ SentParamText (k.sentIn .path) paths ∧
    Pieces SentParamText (k.sentIn .query) query ∧
    Pieces SentParamText (k.sentIn .header) headers ∧
    Pieces BodyEncodeText k.body.toList body ∧
    Pieces (StatusArmText k.response) k.statusArms arms ∧
    c = docAttrs k.doc ++
      (flat "pub async fn" ++ word k.ident ++ params ++
        (flat "-> Result<models::" ++ word k.response ++
          (flat ", ::bindery::ClientError>" ++ braces (
            flat "let url = ::bindery::client::endpoint_url(&self.base_url," ++
              (literal k.path ++ (flat ", &[" ++ commas paths ++ (flat "])?;" ++
                ((if k.hasQuery then ClientMethod.querySetup.code else []) ++ (query ++
                  (k.requesting.code ++ (headers ++ (body ++
                    (flat "let response = request.send().await?;" ++
                      (flat "match response.status().as_u16()" ++ braces arms))))))))))))))

theorem ClientMethod.text (k : ClientMethod) : ClientMethodText k k.code := by
  have hbody : Pieces BodyEncodeText k.body.toList ((k.body.map (·.code)).getD []) := by
    cases k.body with
    | none => exact ⟨[], .nil, rfl⟩
    | some b => exact ⟨[b.code], .cons b.text .nil, List.flatten_singleton.symm⟩
  have hquery : k.querying.flatMap (·.code) =
      (if k.hasQuery then ClientMethod.querySetup.code else []) ++
        (k.sentIn .query).flatMap (·.code) := by
    unfold querying hasQuery
    cases hq : k.sentIn .query with
    | nil => rfl
    | cons q qs =>
        simp only [List.isEmpty_cons, Bool.not_false, if_true, List.flatMap_cons]
        rw [List.flatMap_map]
        rfl
  have hheaders : ((k.sentIn .header).map (·.statement "request")).flatMap (·.code) =
      (k.sentIn .header).flatMap (·.code) := by
    rw [List.flatMap_map]
    rfl
  have hresult : flat "-> Result<models::" = flat "-> Result<" ++ flat "models::" := rfl
  have hsend : flat "let response = request.send().await?; match response.status().as_u16()" =
      flat "let response = request.send().await?;" ++ flat "match response.status().as_u16()" := by
    decide +kernel
  refine ⟨_, _, _, _, _, _, paramsCode_text k.params, texts_map fun q _ => q.text,
    .flatMap SentParam.text _, .flatMap SentParam.text _, hbody, k.armsCode_text, ?_⟩
  rw [code_eq, hresult, hsend]
  unfold statements
  rw [List.flatMap_cons, List.flatMap_append, List.flatMap_cons, hquery, hheaders]
  simp only [addressing, modelPath, List.append_assoc]

/-- The arms that send a body are written one after another, whether it may be absent or not. -/
theorem BodyEncodeText.arms {b : BodyEncode} {c : Code} (h : BodyEncodeText b c) :
    ∃ texts, List.Forall₂ (EncodeArmText b.className) b.arms texts ∧
      flat "request = match request_body" ++ braces texts.flatten ++ flat ";" <:+: c := by
  cases h with
  | required h =>
      obtain ⟨texts, htexts, rfl⟩ := h
      exact ⟨texts, htexts, List.infix_rfl⟩
  | optional h =>
      obtain ⟨texts, htexts, rfl⟩ := h
      exact ⟨texts, htexts, List.infix_append_of_infix_right (Code.infix_braces _)⟩

section ClientMethodText

variable {k : ClientMethod} {c : Code}

/-- The arms that read the response are the last thing in a method. -/
theorem ClientMethodText.arms (hc : ClientMethodText k c) :
    ∃ arms, Pieces (StatusArmText k.response) k.statusArms arms ∧
      flat "match response.status().as_u16()" ++ braces arms <:+: c := by
  obtain ⟨_, _, _, _, _, arms, -, -, -, -, -, harms, rfl⟩ := hc
  refine ⟨arms, harms, ?_⟩
  iterate 4 apply List.infix_append_of_infix_right
  refine List.IsInfix.trans ?_ (Code.infix_braces _)
  iterate 10 apply List.infix_append_of_infix_right
  exact List.infix_rfl

/-- A request body is sent before the response is read. -/
theorem ClientMethodText.body (hc : ClientMethodText k c) {b : BodyEncode} (hb : k.body = some b) :
    ∃ text, BodyEncodeText b text ∧ text <:+: c := by
  obtain ⟨_, _, _, _, body, _, -, -, -, -, hbody, -, rfl⟩ := hc
  rw [hb] at hbody
  obtain ⟨text, htext, hpart⟩ := hbody.exists_infix List.mem_cons_self
  refine ⟨text, htext, hpart.trans ?_⟩
  iterate 4 apply List.infix_append_of_infix_right
  refine List.IsInfix.trans ?_ (Code.infix_braces _)
  iterate 8 apply List.infix_append_of_infix_right
  exact List.infix_append_of_infix_left List.infix_rfl

end ClientMethodText

/-! ## Clients -/

/-- The text of a client: what it holds, how it is made, and its methods. -/
def ClientText (ident : String) (ks : List ClientMethod) (c : Code) : Prop :=
  ∃ methods, Pieces ClientMethodText ks methods ∧
    c = flat "#[derive(Debug, Clone)] pub struct" ++ word ident ++
      braces (flat "client: ::reqwest::Client, base_url: String,") ++
      flat "impl" ++ word ident ++
      braces (
        docAttrs "Creates a client for the server at `base_url`." ++
          flat "pub fn new(base_url: impl Into<String>) -> Result<Self, ::bindery::ClientError>" ++
          braces (flat "Ok(Self::with_client(base_url, ::bindery::client::http_client()?))") ++
        docAttrs "Creates a client that sends requests through `client`." ++
          flat
            "pub fn with_client(base_url: impl Into<String>, client: ::reqwest::Client) -> Self" ++
          braces (flat "Self" ++ braces (flat "client, base_url: base_url.into(),")) ++
        flat "pub fn base_url(&self) -> &str" ++ braces (flat "&self.base_url") ++ methods)

theorem clientCode_text (ident : String) (ks : List ClientMethod) :
    ClientText ident ks (clientCode ident ks) :=
  ⟨_, .flatMap ClientMethod.text ks, rfl⟩

end Emit
end ApiContract
