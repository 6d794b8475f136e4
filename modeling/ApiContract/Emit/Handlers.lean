import ApiContract.Emit.Contract

/-!
# Request handlers

**Input:** resolved metadata.

**Results:** one handler for each operation, as data (`Handler`): how each parameter is read and
under which local name, how the body is read by content type, which arguments the contract method
gets, and how each response is written.  `Handler.code` prints a handler, and `controllerModule` the
module with the controller that routes requests to the handlers.
-/

namespace ApiContract
namespace Emit

/-! ## Parameters -/

/-- Names that a handler uses for itself. -/
def reservedLocals : List String :=
  ["server", "path_params", "query_params", "header_map", "request", "request_body", "cleanup",
    "response", "writer"]

/-- The local name of a parameter. -/
def localIdent (ident : String) : String :=
  if reservedLocals.contains ident then ident ++ "_param" else ident

/-- How a parameter is read. -/
structure ParamRead where
  /-- Local name. -/
  binding : String
  /-- Wire name. -/
  wire : String
  /-- Place. -/
  location : Location
  /-- Whether it must be given. -/
  required : Bool
  /-- Scalar type. -/
  scalar : Primitive
deriving DecidableEq, Inhabited

/-- How a declared parameter is read. -/
def paramRead (o : Operation) (p : Param) : Emitting ParamRead := do
  return {
    binding := localIdent (Naming.fieldIdent p.name)
    wire := p.name
    location := p.location
    required := p.required
    scalar := ← paramScalar o p }

/-- The local name that an argument of the contract method is taken from. -/
def argumentOf (p : ContractParam) : String :=
  match p.wire with
  | some _ => localIdent p.ident
  | none => requestIdent

/-! ## Bodies -/

/-- What a form field holds. -/
inductive FieldKind
  | scalar (p : Primitive)
  | file
deriving DecidableEq, Inhabited

/-- How a form field is read. -/
structure FieldRead where
  /-- Identifier of the record field. -/
  ident : String
  /-- Wire name. -/
  wire : String
  /-- Whether it must be given. -/
  required : Bool
  /-- What it holds. -/
  kind : FieldKind
deriving DecidableEq, Inhabited

namespace FieldRead

/-- The local name of a field. -/
def binding (f : FieldRead) : String :=
  "field_" ++ f.ident

/-- Whether a field holds a file. -/
def isFile (f : FieldRead) : Bool :=
  f.kind == .file

end FieldRead

/-- How a form is read: the record it becomes, and its fields. -/
structure FormRead where
  /-- Model of the record. -/
  record : String
  /-- Fields in the order of the record. -/
  fields : List FieldRead
deriving DecidableEq, Inhabited

namespace FormRead

/-- The reads in their order: every scalar before the first file. -/
def reads (f : FormRead) : List FieldRead :=
  f.fields.filter (!·.isFile) ++ f.fields.filter (·.isFile)

end FormRead

/-- How a body of one media type is read. -/
inductive BodyRead
  | json
  | xml
  | form (f : FormRead)
  | multipart (f : FormRead)
deriving DecidableEq, Inhabited

/-- The reading of a body of one media type. -/
structure BodyArm where
  /-- Media type. -/
  media : Media
  /-- Identifier by which the request sum knows the body. -/
  member : String
  /-- How the body is read. -/
  read : BodyRead
deriving DecidableEq, Inhabited

/-- The reading of a request body. -/
structure BodyDispatch where
  /-- Model of the request sum. -/
  className : String
  /-- Whether a request has to carry it. -/
  required : Bool
  /-- Readings by media type. -/
  arms : List BodyArm
deriving DecidableEq, Inhabited

/-- How the form field of a property is read. -/
def fieldRead (refs : RefTable) (multipart : Bool) (p : Property) : Emitting FieldRead := do
  let kind ←
    if p.type.isFileUpload then
      if multipart then pure FieldKind.file else throw (EmitError.fileOutsideMultipart p.name)
    else
      match (← target refs p.type).primitive? with
      | some q => pure (.scalar q)
      | none => throw (.fieldNotScalar p.name)
  return { ident := Naming.fieldIdent p.name, wire := p.name, required := p.required, kind }

/-- How a form body is read. -/
def formRead (refs : RefTable) (multipart : Bool) (t : Descriptor) : Emitting FormRead := do
  let (record, ps) ← formRecord refs t
  return { record, fields := ← ps.mapM (fieldRead refs multipart) }

/-- How a body of one media type is read. -/
def bodyArm (refs : RefTable) (m : Media) (t : Descriptor) : Emitting BodyArm := do
  let read ←
    match m with
    | .json => pure BodyRead.json
    | .xml => pure .xml
    | .form => (formRead refs false t).map .form
    | .multipart => (formRead refs true t).map .multipart
  return { media := m, member := memberIdent t, read }

/-- How a request body is read. -/
def bodyDispatch (refs : RefTable) (b : RequestBody) : Emitting BodyDispatch := do
  return {
    className := b.className
    required := b.required
    arms := ← b.content.mapM fun (m, t) => bodyArm refs m t }

/-- Whether a reading stores files. -/
def BodyDispatch.storesFiles (b : BodyDispatch) : Bool :=
  b.arms.any fun a =>
    match a.read with
    | .multipart f => f.fields.any (·.isFile)
    | _ => false

/-! ## Responses -/

/-- Where the status of a response comes from. -/
inductive StatusSource
  | fixed (code : Nat)
  /-- The `code` of the body with this name. -/
  | body (binding : String)
deriving DecidableEq, Inhabited

/-- How a response header is written. -/
structure HeaderWrite where
  /-- Wire name. -/
  wire : String
  /-- Identifier of the field in the record of headers. -/
  field : String
  /-- Whether it is always there. -/
  required : Bool
deriving DecidableEq, Inhabited

/-- How the body of a response is written. -/
inductive BodyWrite
  | empty
  /-- The file with this name, which is deleted afterwards. -/
  | file (binding : String)
  | json (binding : String)
deriving DecidableEq, Inhabited

/-- How a response is written. -/
structure DispatchArm where
  /-- Name of the variant. -/
  tag : String
  /-- Names of what the variant carries. -/
  bindings : List String
  /-- Status. -/
  status : StatusSource
  /-- Name of the record of headers. -/
  headersBinding : String
  /-- Headers. -/
  headers : List HeaderWrite
  /-- Body. -/
  body : BodyWrite
deriving DecidableEq, Inhabited

/-- The properties of a record of headers. -/
def headerProperties (v : Variant) : Descriptor → Emitting (List Property)
  | .object _ ps => .ok ps
  | _ => .error (.headersNotRecord v.name)

/-- Where the status of a response comes from. -/
def statusSource (o : Operation) (s : Status) (v : Variant) : Emitting StatusSource :=
  match s, v.body? with
  | .code n, _ => .ok (.fixed n)
  | .default, some body => .ok (.body (memberIdent body))
  | .default, none => .error (.defaultWithoutBody o.operationId)

/-- How a response is written. -/
def dispatchArm (o : Operation) (s : Status) (v : Variant) : Emitting DispatchArm := do
  let status ← statusSource o s v
  let properties ←
    match v.headers with
    | none => pure []
    | some h => headerProperties v h
  return {
    tag := v.name
    bindings := v.members.map memberIdent
    status
    headersBinding := (v.headers.map memberIdent).getD ""
    headers := properties.map fun p => ⟨p.name, Naming.fieldIdent p.name, p.required⟩
    body :=
      match v.payload with
      | .none => .empty
      | .body t true => .file (memberIdent t)
      | .body t false => .json (memberIdent t) }

/-! ## Handlers -/

/-- The handler of an operation. -/
structure Handler where
  /-- Method. -/
  method : Method
  /-- Path template. -/
  path : String
  /-- Identifier. -/
  ident : String
  /-- Reads of the parameters. -/
  reads : List ParamRead
  /-- Reading of the request body. -/
  body : Option BodyDispatch
  /-- Local names of the arguments of the contract method. -/
  arguments : List String
  /-- Model of the responses. -/
  response : String
  /-- Writing of the responses. -/
  arms : List DispatchArm
  /-- Whether files may have to be deleted at the end. -/
  cleansUp : Bool
deriving DecidableEq, Inhabited

/-- The handler of an operation. -/
def handler (refs : RefTable) (o : Operation) : Emitting Handler := do
  let params ← contractParams o
  let reads ← o.params.mapM (paramRead o)
  let body ←
    match o.requestBody with
    | none => pure none
    | some b => (bodyDispatch refs b).map some
  let arms ← o.responseBody.variants.mapM fun (s, v) => dispatchArm o s v
  return {
    method := o.method
    path := o.path
    ident := Naming.fieldIdent o.operationId
    reads
    body
    arguments := params.map argumentOf
    response := o.responseBody.className
    arms
    cleansUp := body.any (·.storesFiles) || o.responseBody.variants.any (·.2.isFile) }

/-! ## Printing -/

open Code (flat word literal braces parens commas docAttr docAttrs)

/-- The code of the raw text of a parameter. -/
def rawCode (p : ParamRead) : Code :=
  match p.location with
  | .path => flat "path_params.get(" ++ literal p.wire ++ flat ").map(String::as_str)"
  | .query => flat "query_params.get(" ++ literal p.wire ++ flat ").map(String::as_str)"
  | .header => flat "::bindery::header_value(&header_map," ++ literal p.wire ++ flat ")?"

/-- The statement that reads a parameter. -/
def ParamRead.code (p : ParamRead) : Code :=
  let read := if p.required then "::bindery::read_required_param"
    else "::bindery::read_optional_param"
  flat "let" ++ word p.binding ++ flat "=" ++ flat read ++
    parens (commas [literal p.wire, rawCode p, flat (scalarReader p.scalar)]) ++ flat "?;"

/-- The statement that reads a form field. -/
def FieldRead.code (f : FieldRead) : Code :=
  let start := flat "let" ++ word f.binding ++ flat "="
  match f.kind, f.required with
  | .scalar p, true =>
    start ++ flat "form.required(" ++ literal f.wire ++ flat "," ++ flat (scalarReader p) ++
      flat ")?;"
  | .scalar p, false =>
    start ++ flat "form.optional(" ++ literal f.wire ++ flat "," ++ flat (scalarReader p) ++
      flat ")?;"
  | .file, true =>
    start ++ flat "models::FileUpload::from(form.required_file(" ++ literal f.wire ++
      flat ", &mut cleanup).await?);"
  | .file, false =>
    start ++ flat "form.optional_file(" ++ literal f.wire ++
      flat ", &mut cleanup).await?.map(models::FileUpload::from);"

/-- The statements that read a form into `record`. -/
def FormRead.code (source : String) (f : FormRead) : Code :=
  flat "let form = ::bindery::" ++ flat source ++ flat "(request).await?;" ++
    f.reads.flatMap (·.code) ++ flat "let record =" ++ modelPath .sibling f.record ++
    braces (commas (f.fields.map fun g => word g.ident ++ flat ":" ++ word g.binding)) ++ flat ";"

/-- The expression that reads a body of one media type. -/
def BodyArm.decodeCode (className : String) (a : BodyArm) : Code :=
  let construct := modelPath .sibling className ++ flat "::" ++ word a.media.tag
  let attempt (body : Code) : Code :=
    flat "::bindery::valid_body(async" ++ braces body ++ flat ".await)?"
  let accept (value : Code) : Code :=
    flat "Ok::<_, ::bindery::BodyError>(" ++ construct ++ braces value ++ flat ")"
  let form (source : String) (f : FormRead) : Code :=
    attempt (f.code source ++ accept (word a.member ++ flat ": record"))
  match a.read with
  | .json => attempt (accept (word a.member ++ flat ": ::bindery::read_json(request).await?,"))
  | .xml =>
    flat "::bindery::valid_body(::bindery::unsupported_media(" ++ literal a.media.mime ++ flat "))?"
  | .form f => form "read_form" f
  | .multipart f => form "read_multipart" f

/-- The arm that reads a body of one media type. -/
def BodyArm.code (className : String) (required : Bool) (a : BodyArm) : Code :=
  let decode := a.decodeCode className
  flat "Some(" ++ literal a.media.mime ++ flat ") =>" ++
    (if required then decode else flat "Some" ++ parens decode) ++ flat ","

/-- The statement that reads the request body. -/
def BodyDispatch.code (b : BodyDispatch) : Code :=
  let missing := if b.required then [] else flat "None => None,"
  flat "let request_body = match ::bindery::primary_content_type(&header_map).as_deref()" ++
    braces (b.arms.flatMap (·.code b.className b.required) ++ missing ++
      flat "_ => return Err(::bindery::RequestError::NoBodyFound.into()),") ++ flat ";"

/-- The statement that writes a header. -/
def HeaderWrite.code (binding : String) (h : HeaderWrite) : Code :=
  let source := flat "&" ++ word binding ++ flat "." ++ word h.field
  if h.required then flat "writer.header(" ++ literal h.wire ++ flat "," ++ source ++ flat ")?;"
  else
    flat "if let Some(value) =" ++ source ++
      braces (flat "writer.header(" ++ literal h.wire ++ flat ", value)?;")

/-- The code of a status. -/
def StatusSource.code : StatusSource → Code
  | .fixed n => word (toString n)
  | .body binding => flat "i64::from(" ++ word binding ++ flat ".code)"

/-- The arm that writes a response. -/
def DispatchArm.code (className : String) (a : DispatchArm) : Code :=
  let members := if a.bindings.isEmpty then [] else braces (commas (a.bindings.map word))
  let register :=
    match a.body with
    | .file binding => flat "cleanup.remove_file(&" ++ word binding ++ flat ");"
    | _ => []
  let write :=
    match a.body with
    | .empty => flat "writer.empty()"
    | .file binding => flat "writer.file(&" ++ word binding ++ flat ").await"
    | .json binding => flat "writer.json(&" ++ word binding ++ flat ")"
  modelPath .sibling className ++ flat "::" ++ word a.tag ++ members ++ flat "=>" ++
    braces (register ++ flat "let" ++ (if a.headers.isEmpty then [] else flat "mut") ++
      flat "writer = ::bindery::ResponseWriter::from_code(" ++ a.status.code ++ flat ")?;" ++
      a.headers.flatMap (·.code a.headersBinding) ++ write)

/-- What a handler takes from the request. -/
def Handler.extractors (h : Handler) : List Code :=
  let reads (l : Location) : Bool := h.reads.any (·.location == l)
  let texts := "::std::collections::HashMap<String, String>"
  [flat "::axum::extract::State(server): ::axum::extract::State<::std::sync::Arc<S>>"] ++
    (if reads .path then
      [flat "::axum::extract::Path(path_params): ::axum::extract::Path<" ++ flat texts ++ flat ">"]
    else []) ++
    (if reads .query then
      [flat "::axum::extract::Query(query_params): ::axum::extract::Query<" ++
        flat texts ++ flat ">"]
    else []) ++
    (if reads .header || h.body.isSome then [flat "header_map: ::axum::http::HeaderMap"] else []) ++
    (if h.body.isSome then [flat "request: ::axum::extract::Request"] else [])

/-- The code of a handler. -/
def Handler.code (contract : String) (h : Handler) : Code :=
  let cleanup :=
    if h.cleansUp then "let mut cleanup = ::bindery::CleanupRegistry::new();"
    else "let _cleanup = ::bindery::CleanupRegistry::new();"
  docAttr ("`" ++ h.method.upperName ++ " " ++ h.path ++ "`") ++
    flat "async fn" ++ word h.ident ++ flat "<S:" ++ word contract ++ flat ">(" ++
    commas h.extractors ++
    flat ") -> Result<::axum::response::Response, ::bindery::HandlerError>" ++
    braces (flat cleanup ++ h.reads.flatMap (·.code) ++
      (h.body.map (·.code)).getD [] ++
      flat "let response = server." ++ word h.ident ++ flat "(" ++
      commas (h.arguments.map word) ++ flat ").await?; match response" ++
      braces (h.arms.flatMap (·.code h.response)))

/-! ## The controller -/

/-- The handlers of one path. -/
structure Route where
  /-- Path template. -/
  path : String
  /-- Methods with the identifiers of their handlers. -/
  entries : List (Method × String)
deriving DecidableEq, Inhabited

/-- Adds a handler to the route of its path, or a new route. -/
def addRoute (path : String) (entry : Method × String) : List Route → List Route
  | [] => [⟨path, [entry]⟩]
  | r :: rs =>
    if r.path = path then { r with entries := r.entries ++ [entry] } :: rs
    else r :: addRoute path entry rs

/-- The routes of operations, one for each path. -/
def routes (os : List Operation) : List Route :=
  os.foldl (fun rs o => addRoute o.path (o.method, Naming.fieldIdent o.operationId) rs) []

/-- The code of a route. -/
def Route.code (r : Route) : Code :=
  flat ".route(" ++ literal r.path ++ flat ", ::axum::routing::" ++
    List.intercalate (flat ".")
      (r.entries.map fun (m, ident) => word m.name ++ flat "(" ++ word ident ++ flat "::<S>)") ++
    flat ")"

/-- The controller. -/
def controllerCode (contract controller : String) (rs : List Route) : Code :=
  let shared := flat "Self" ++ braces (flat "server: ::std::sync::Arc::clone(&self.server),")
  flat "pub struct" ++ word controller ++ flat "<S>" ++
    braces (flat "server: ::std::sync::Arc<S>,") ++
    flat "impl<S> Clone for" ++ word controller ++ flat "<S>" ++
    braces (flat "fn clone(&self) -> Self" ++ braces shared) ++
    flat "impl<S:" ++ word contract ++ flat ">" ++ word controller ++ flat "<S>" ++
    braces (
      flat "pub fn new(server: S) -> Self" ++
        braces (flat "Self::from_arc(::std::sync::Arc::new(server))") ++
      docAttr " Shares an implementation that is also used elsewhere." ++
        flat "pub fn from_arc(server: ::std::sync::Arc<S>) -> Self" ++
        braces (flat "Self" ++ braces (flat "server")) ++
      docAttr " A router with one route per operation." ++
        flat "pub fn into_router(self) -> ::axum::Router" ++
        braces (flat "::axum::Router::new()" ++ rs.flatMap (·.code) ++
          flat ".with_state(self.server)") ++
      docAttr " Adds every route to an existing router." ++
        flat "pub fn bind(self, router: ::axum::Router) -> ::axum::Router" ++
        braces (flat "router.merge(self.into_router())"))

/-- The module of the handlers. -/
def controllerModule (m : Metadata) : Emitting SourceModule := do
  checkNames m
  let handlers ← m.operations.mapM (handler m.refs)
  let contract := contractName m
  let controller := controllerName m
  let doc := "Serves a `" ++ contract ++ "` implementation over HTTP.\n\n```ignore\n" ++
    "let router = " ++ controller ++ "::new(MyServer).into_router();\n" ++
    "axum::serve(listener, router).await?;\n```"
  return {
    place := ["routes"]
    doc := some "HTTP bindings for the server contract."
    code := modelsImport m ++ flat "use super::server::" ++ word contract ++ flat ";" ++
      docAttrs doc ++ controllerCode contract controller (routes m.operations) ++
      handlers.flatMap (·.code contract) }

end Emit
end ApiContract
