import ApiContract.Resolve.Parameters

/-!
# Resolution of request and response bodies

**Results:**

* a request body keeps the contents of supported media types whose schema is a pointer, of each
  media type the first;
* a response becomes a variant: with a JSON body, with a file, or with a status alone.  Its name is
  the one of the schema behind a pointer, if that is an object or array, and else a fixed name of
  the status.
-/

namespace ApiContract
namespace Resolve

/-- Names of statuses whose responses have no name of their own. -/
def statusName? : Status → Option String
  | .code 200 => some "Ok"
  | .code 201 => some "Created"
  | .code 204 => some "NoContent"
  | .code 302 => some "Redirect"
  | .code 402 => some "PaymentRequired"
  | .code 404 => some "NotFound"
  | .code 422 => some "UnprocessableContent"
  | _ => none

/-- A media type without parameters, in small letters. -/
def essence (mime : String) : String :=
  Text.asciiLower (String.ofList (Text.trim (mime.toList.takeWhile (· != ';'))))

/-! ## Requests -/

/-- Keeps a content under its media type, unless the media type has one. -/
def addContent (m : Media) (t : Descriptor) (content : List (Media × Descriptor)) :
    List (Media × Descriptor) :=
  if (content.lookup m).isSome then content else content ++ [(m, t)]

/-- Resolves contents of a request body, after those resolved so far. -/
def requestContents (d : Document) (operationId : String) (done : List (Media × Descriptor)) :
    Document.Content → Resolving (List (Media × Descriptor))
  | [] => pure done
  | (mime, c) :: rest => do
    match Media.ofMime? (essence mime) with
    | none =>
      warn (.unsupportedRequestMedia operationId mime)
      requestContents d operationId done rest
    | some m =>
      match c.schema.bind (·.ref) with
      | none =>
        warn (.unnamedRequestSchema operationId mime)
        requestContents d operationId done rest
      | some pointer =>
        let t ← reference d [] pointer
        requestContents d operationId (addContent m t done) rest

/-- Resolves the request body of an operation.  A body of which nothing is left is none. -/
def requestBody (d : Document) (operationId : String) (o : Document.Operation) :
    Resolving (Option RequestBody) := do
  match o.requestBody with
  | none => return none
  | some b =>
    let content ← requestContents d operationId [] b.content
    if content.isEmpty then
      warn (.emptyRequestBody operationId)
      return none
    else
      let name ← typeName operationId "operationId"
      return some { className := name ++ "Request", required := b.required, content }

/-! ## Responses -/

/-- The first content of a media type that is JSON. -/
def jsonContent? (content : Document.Content) : Option Document.MediaContent :=
  (content.find? fun e => essence e.1 == Media.json.mime).map (·.2)

/-- Whether a content can be sent as a file: it has no schema, or one in place that is a text. -/
def isBinaryContent (c : Document.MediaContent) : Bool :=
  match c.schema with
  | none => true
  | some s => s.ref.isNone && s.type == some "string"

/-- The name of a status, or a failure. -/
def statusName (operationId : String) (status : Status) : Resolving String :=
  orRefuse (.unmappedStatus status.name operationId) (statusName? status)

/-- Resolves response headers. -/
def headerProperties (d : Document) (operationId className : String) :
    List (String × Document.Header) → Resolving (List Property)
  | [] => pure []
  | (header, h) :: rest => do
    let primitive? ← primitiveOf? d h.schema (className ++ Naming.pascalCase header)
    let primitive ← orRefuse (.nonPrimitiveHeader header operationId) primitive?
    let more ← headerProperties d operationId className rest
    return { name := header, type := .primitive primitive, required := h.required } :: more

/-- The headers of a response as a named record, if it has any. -/
def responseHeaders (d : Document) (operationId className variant : String)
    (r : Document.Response) : Resolving (Option Descriptor) := do
  if r.headers.isEmpty then return none
  let name := className ++ variant ++ "Headers"
  let properties ← headerProperties d operationId name r.headers
  return some (.object (some name) properties)

/-- Whether a descriptor gives its name to a response. -/
def namesResponse : Descriptor → Bool
  | .object .. => true
  | .array .. => true
  | _ => false

/-- Resolves a JSON body and gives the name of its response. -/
def jsonBody (d : Document) (operationId className : String) (status : Status)
    (s : Document.Schema) : Resolving (String × Descriptor) := do
  match s.ref with
  | some pointer =>
    let body ← reference d [] pointer
    if ((← get).table.resolve? body).any namesResponse then
      return (← typeName (Naming.simpleName pointer) "Schema", body)
    else return (← statusName operationId status, body)
  | none =>
    let name ← statusName operationId status
    let body ← typeOf d [] s (className ++ name ++ "Body")
    return (name, body)

/-- Resolves a response. -/
def responseVariant (d : Document) (operationId className : String) (status : Status)
    (r : Document.Response) : Resolving Variant := do
  match (jsonContent? r.content).bind (·.schema) with
  | some s =>
    let (name, body) ← jsonBody d operationId className status s
    let headers ← responseHeaders d operationId className name r
    return { name, headers, payload := .body body false }
  | none =>
    if r.content.any fun e => isBinaryContent e.2 then
      let headers ← responseHeaders d operationId className "File" r
      return { name := "File", headers, payload := .body .file true }
    else
      if !r.content.isEmpty then warn (.unsupportedResponseContent operationId status.name)
      let name ← statusName operationId status
      let headers ← responseHeaders d operationId className name r
      return { name, headers, payload := .none }

/-- Whether a property is the status in the body of a default response. -/
def isCode (p : Property) : Bool :=
  p.name == "code" && p.required &&
    (p.type == .primitive .int || p.type == .primitive .int64)

/-- Whether a descriptor is a record with a status. -/
def hasCode : Descriptor → Bool
  | .object _ properties => properties.any isCode
  | _ => false

/-- Whether the status of a default response can be taken from its body. -/
def hasStatus (table : RefTable) (v : Variant) : Bool :=
  match v.payload with
  | .body t false => (table.resolve? t).any hasCode
  | _ => false

/-- Resolves the responses of an operation, after those resolved so far. -/
def responseVariants (d : Document) (operationId className : String)
    (done : List (Status × Variant)) :
    List (String × Document.Response) → Resolving (List (Status × Variant))
  | [] => pure done
  | (text, r) :: rest => do
    let status ← orRefuse (.unsupportedStatus text operationId) (Status.ofName? text)
    let v ← responseVariant d operationId className status r
    if status == .default && !hasStatus (← get).table v then
      refuse (.defaultWithoutCode operationId)
    if done.any fun e => e.2.name == v.name then refuse (.duplicateVariant v.name operationId)
    responseVariants d operationId className (Assoc.put status v done) rest

/-- Resolves the responses of an operation. -/
def responseBody (d : Document) (operationId : String) (o : Document.Operation) :
    Resolving ResponseBody := do
  let name ← typeName operationId "operationId"
  let className := name ++ "Response"
  return { className, variants := ← responseVariants d operationId className [] o.responses }

end Resolve
end ApiContract
