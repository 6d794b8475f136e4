import ApiContract.Emit.Handlers

/-!
# Clients

**Input:** resolved metadata.

**Results:** one client method for each operation, as data (`ClientMethod`): which arguments fill
the path, the query and the headers, how each variant of the request body is sent, and which variant
of the response each status becomes.  `ClientMethod.code` prints a method, and `clientModule` the
module of the client.
-/

namespace ApiContract
namespace Emit

/-! ## Requests -/

/-- An argument that is sent with a request. -/
structure SentParam where
  /-- Identifier of the argument. -/
  ident : String
  /-- Wire name. -/
  wire : String
  /-- Place. -/
  location : Location
  /-- Whether it is always sent. -/
  required : Bool
deriving DecidableEq, Inhabited

/-- A field that is sent as a part of a multipart body. -/
structure SentPart where
  /-- Identifier of the record field. -/
  field : String
  /-- Wire name. -/
  wire : String
  /-- Whether it holds a file. -/
  isFile : Bool
  /-- Whether it is always sent. -/
  required : Bool
deriving DecidableEq, Inhabited

/-- How a body of one media type is sent. -/
inductive BodySend
  | json
  | form
  /-- Not at all. -/
  | unsupported
  | multipart (parts : List SentPart)
deriving DecidableEq, Inhabited

/-- The sending of a body of one media type. -/
structure EncodeArm where
  /-- Media type. -/
  media : Media
  /-- Identifier by which the request sum knows the body. -/
  member : String
  /-- How the body is sent. -/
  send : BodySend
deriving DecidableEq, Inhabited

/-- The sending of a request body. -/
structure BodyEncode where
  /-- Model of the request sum. -/
  className : String
  /-- Whether there always is one. -/
  required : Bool
  /-- Sendings by media type. -/
  arms : List EncodeArm
deriving DecidableEq, Inhabited

/-- How a body of one media type is sent. -/
def encodeArm (refs : RefTable) (m : Media) (t : Descriptor) : Emitting EncodeArm := do
  let send ←
    match m with
    | .json => pure BodySend.json
    | .form => pure .form
    | .xml => pure .unsupported
    | .multipart => do
      let (_, ps) ← formRecord refs t
      pure (.multipart (ps.map fun p =>
        ⟨Naming.fieldIdent p.name, p.name, p.type.isFileUpload, p.required⟩))
  return { media := m, member := memberIdent t, send }

/-- How a request body is sent. -/
def bodyEncode (refs : RefTable) (b : RequestBody) : Emitting BodyEncode := do
  return {
    className := b.className
    required := b.required
    arms := ← b.content.mapM fun (m, t) => encodeArm refs m t }

/-! ## Responses -/

/-- How a response header is read. -/
structure HeaderRead where
  /-- Identifier of the field in the record of headers. -/
  field : String
  /-- Wire name. -/
  wire : String
  /-- Whether it must be there. -/
  required : Bool
  /-- Scalar type. -/
  scalar : Primitive
deriving DecidableEq, Inhabited

/-- How the body of a response is read. -/
inductive ResponseRead
  | empty
  /-- Into a file with this name. -/
  | file (binding : String)
  | json (binding : String) (type : CodeType)
deriving DecidableEq, Inhabited

/-- How a response becomes a variant. -/
structure DecodeArm where
  /-- Fixed status; none for the default response. -/
  status : Option Nat
  /-- Name of the variant. -/
  tag : String
  /-- Names of what the variant carries. -/
  bindings : List String
  /-- Name and type of the record of headers, with its fields. -/
  headers : Option (String × CodeType × List HeaderRead)
  /-- Body. -/
  body : ResponseRead
deriving DecidableEq, Inhabited

/-- How a header is read. -/
def headerRead (p : Property) : Emitting HeaderRead :=
  match p.type.primitive? with
  | some q => .ok ⟨Naming.fieldIdent p.name, p.name, p.required, q⟩
  | none => .error (.headerNotScalar p.name)

/-- How a response becomes a variant. -/
def decodeArm (refs : RefTable) (s : Status) (v : Variant) : Emitting DecodeArm := do
  let headers ←
    match v.headers with
    | none => pure none
    | some h => do
      let type ← typeOf refs h
      let properties ← headerProperties v h
      pure (some (memberIdent h, type, ← properties.mapM headerRead))
  let body ←
    match v.payload with
    | .none => pure ResponseRead.empty
    | .body t true => pure (.file (memberIdent t))
    | .body t false => (typeOf refs t).map (.json (memberIdent t))
  let status :=
    match s with
    | .code n => some n
    | .default => none
  return { status, tag := v.name, bindings := v.members.map memberIdent, headers, body }

/-! ## Methods -/

/-- The client method of an operation. -/
structure ClientMethod where
  /-- Documentation. -/
  doc : String
  /-- Method. -/
  method : Method
  /-- Path template. -/
  path : String
  /-- Identifier. -/
  ident : String
  /-- Arguments. -/
  params : List ContractParam
  /-- What is sent of them. -/
  sent : List SentParam
  /-- Sending of the request body. -/
  body : Option BodyEncode
  /-- Model of the responses. -/
  response : String
  /-- Reading of the responses. -/
  arms : List DecodeArm
deriving Inhabited

namespace ClientMethod

/-- What is sent in one place. -/
def sentIn (m : ClientMethod) (l : Location) : List SentParam :=
  m.sent.filter (·.location == l)

/-- The reading of responses with a status of their own. -/
def fixedArms (m : ClientMethod) : List DecodeArm :=
  m.arms.filter (·.status.isSome)

/-- The reading of all other responses, if the document declares it. -/
def defaultArm? (m : ClientMethod) : Option DecodeArm :=
  m.arms.find? (·.status.isNone)

end ClientMethod

/-- The client method of an operation. -/
def clientMethod (refs : RefTable) (o : Operation) : Emitting ClientMethod := do
  let params ← contractParams o
  let body ←
    match o.requestBody with
    | none => pure none
    | some b => (bodyEncode refs b).map some
  let arms ← o.responseBody.variants.mapM fun (s, v) => decodeArm refs s v
  return {
    doc := o.summary.getD o.operationId
    method := o.method
    path := o.path
    ident := Naming.fieldIdent o.operationId
    params
    sent := o.params.map fun p => ⟨Naming.fieldIdent p.name, p.name, p.location, p.required⟩
    body
    response := o.responseBody.className
    arms }

/-! ## Printing -/

open Code (flat word literal braces parens commas docAttrs)

/-- The code that sends an argument. -/
def SentParam.code (p : SentParam) : Code :=
  let send (value : Code) : Code :=
    match p.location with
    | .path => parens (commas [literal p.wire, value ++ flat ".to_string()"])
    | .query => flat "query.push((" ++ literal p.wire ++ flat "," ++ value ++ flat ".to_string()));"
    | .header =>
      flat "request = request.header(" ++ literal p.wire ++ flat "," ++ value ++
        flat ".to_string());"
  if p.required || p.location == .path then send (word p.ident)
  else flat "if let Some(value) = &" ++ word p.ident ++ braces (send (word "value"))

/-- The block that sends a part of a multipart body. -/
def SentPart.code (record : String) (p : SentPart) : Code :=
  let source := flat "&" ++ word record ++ flat "." ++ word p.field
  let value := if p.isFile then "upload" else "value"
  let add :=
    if p.isFile then
      flat "form = form.part(" ++ literal p.wire ++
        flat ", ::bindery::client::file_part(&upload.name, &upload.file, &upload.content_type)" ++
        flat ".await?,);"
    else flat "form = form.text(" ++ literal p.wire ++ flat ", value.to_string());"
  braces (
    if p.required then flat "let" ++ word value ++ flat "=" ++ source ++ flat ";" ++ add
    else flat "if let Some(" ++ word value ++ flat ") =" ++ source ++ braces add)

/-- The arm that sends a body of one media type. -/
def EncodeArm.code (className : String) (a : EncodeArm) : Code :=
  let variant := modelPath .sibling className ++ flat "::" ++ word a.media.tag
  let bound := variant ++ braces (word a.member) ++ flat "=>"
  match a.send with
  | .json => bound ++ flat "request.json(&" ++ word a.member ++ flat "),"
  | .form => bound ++ flat "request.form(&" ++ word a.member ++ flat "),"
  | .unsupported =>
    variant ++ braces (flat "..") ++ flat "=>" ++
      braces (flat "return Err(::bindery::ClientError::UnsupportedMediaType(" ++
        literal a.media.mime ++ flat ".to_string()));")
  | .multipart parts =>
    bound ++ braces (flat "let mut form = ::reqwest::multipart::Form::new();" ++
      parts.flatMap (·.code a.member) ++ flat "request.multipart(form)")

/-- The statement that sends the request body. -/
def BodyEncode.code (b : BodyEncode) : Code :=
  let encode := flat "request = match request_body" ++
    braces (b.arms.flatMap (·.code b.className)) ++ flat ";"
  if b.required then encode
  else flat "if let Some(request_body) = request_body" ++ braces encode

/-- The field that holds a response header. -/
def HeaderRead.code (h : HeaderRead) : Code :=
  let read :=
    if h.required then "::bindery::client::required_header"
    else "::bindery::client::optional_header"
  word h.field ++ flat ":" ++ flat read ++ flat "(response.headers()," ++
    literal h.wire ++ flat "," ++
    flat (scalarReader h.scalar) ++ flat ")?,"

/-- The statements that turn a response into a variant. -/
def DecodeArm.bodyCode (className : String) (a : DecodeArm) : Code :=
  let headers :=
    match a.headers with
    | none => []
    | some (binding, type, fields) =>
      flat "let" ++ word binding ++ flat "=" ++ type.code .sibling ++
        braces (fields.flatMap (·.code)) ++ flat ";"
  let body :=
    match a.body with
    | .empty => []
    | .file binding =>
      flat "let" ++ word binding ++ flat "= ::bindery::client::download_to_temp(response).await?;"
    | .json binding type =>
      flat "let" ++ word binding ++ flat "= response.json::<" ++ type.code .sibling ++
        flat ">().await?;"
  let members := if a.bindings.isEmpty then [] else braces (commas (a.bindings.map word))
  headers ++ body ++ flat "Ok(" ++ modelPath .sibling className ++ flat "::" ++ word a.tag ++
    members ++ flat ")"

/-- The arms that turn responses into variants. -/
def ClientMethod.armsCode (m : ClientMethod) : Code :=
  let fixed := m.arms.flatMap fun a =>
    match a.status with
    | some n => word (toString n) ++ flat "=>" ++ braces (a.bodyCode m.response)
    | none => []
  let rest :=
    match m.defaultArm? with
    | some a => flat "_ =>" ++ braces (a.bodyCode m.response)
    | none => flat "_ => Err(::bindery::client::unexpected_status(response).await),"
  fixed ++ rest

/-- The code of a client method. -/
def ClientMethod.code (m : ClientMethod) : Code :=
  let query := m.sentIn .query
  let headers := m.sentIn .header
  let querySetup :=
    if query.isEmpty then []
    else flat "let mut query: Vec<(&str, String)> = Vec::new();" ++ query.flatMap (·.code)
  let queryCall := if query.isEmpty then [] else flat ".query(&query)"
  let binding := if headers.isEmpty && m.body.isNone then "let request" else "let mut request"
  docAttrs m.doc ++ flat "pub async fn" ++ word m.ident ++ paramsCode m.params ++
    flat "-> Result<" ++ modelPath .sibling m.response ++ flat ", ::bindery::ClientError>" ++
    braces (flat "let url = ::bindery::client::endpoint_url(&self.base_url," ++ literal m.path ++
      flat ", &[" ++ commas ((m.sentIn .path).map (·.code)) ++ flat "])?;" ++ querySetup ++
      flat binding ++ flat "= self.client." ++ word m.method.name ++ flat "(url)" ++ queryCall ++
      flat ";" ++ headers.flatMap (·.code) ++ (m.body.map (·.code)).getD [] ++
      flat "let response = request.send().await?; match response.status().as_u16()" ++
      braces m.armsCode)

/-- The client. -/
def clientCode (ident : String) (methods : List ClientMethod) : Code :=
  flat "#[derive(Debug, Clone)] pub struct" ++ word ident ++
    braces (flat "client: ::reqwest::Client, base_url: String,") ++
    flat "impl" ++ word ident ++
    braces (
      docAttrs "Creates a client for the server at `base_url`." ++
        flat "pub fn new(base_url: impl Into<String>) -> Result<Self, ::bindery::ClientError>" ++
        braces (flat "Ok(Self::with_client(base_url, ::bindery::client::http_client()?))") ++
      docAttrs "Creates a client that sends requests through `client`." ++
        flat "pub fn with_client(base_url: impl Into<String>, client: ::reqwest::Client) -> Self" ++
        braces (flat "Self" ++ braces (flat "client, base_url: base_url.into(),")) ++
      flat "pub fn base_url(&self) -> &str" ++ braces (flat "&self.base_url") ++
      methods.flatMap (·.code))

/-- The module of the client. -/
def clientModule (m : Metadata) : Emitting SourceModule := do
  checkNames m
  let methods ← m.operations.mapM (clientMethod m.refs)
  let doc := "HTTP client for the `" ++ m.namePrefix ++ "` API.\n\n" ++
    "Redirects are returned as responses, not followed."
  return {
    place := ["client"]
    doc := some "HTTP client for the operations."
    code := modelsImport m ++ docAttrs doc ++ clientCode (clientName m) methods }

end Emit
end ApiContract
