import ApiContract.Resolve.Document

/-!
# Resolution on record

**Input:** a document, and how deep calls may be nested.

A resolution that fails leaves nothing but the failure, and its functions end because of a measure
that they are given with.  Here they are written down once more as they are run: they call each
other without a measure, end unfinished where calls are nested too deep, and note on the way which
schemas they expand and what every use of a pointer is resolved to.  What was noted stays when they
fail.

**Results:** `Recording`, steps on record; `Recording.metadata`, the resolution of a document on
record, with one function for each of those that resolve its parts.
-/

namespace ApiContract
namespace Resolve

open Document (Schema)

/-- What is noted. -/
inductive Note
  /-- The schema behind a pointer is expanded. -/
  | expanded (pointer : String)
  /-- A use of a pointer is resolved. -/
  | used (pointer : String) (t : Descriptor)
deriving DecidableEq

/-- The pointer whose schema is expanded. -/
def Note.expanded? : Note → Option String
  | .expanded pointer => some pointer
  | .used .. => none

/-- The state of a resolution on record. -/
structure Journal where
  progress : Progress := {}
  notes : List Note := []

/-- Why a resolution on record stops. -/
inductive Stop
  | refused (e : ResolveError)
  /-- Calls are nested too deep. -/
  | unfinished

/-- A step of resolution on record. -/
abbrev Recording := ExceptT Stop (StateM Journal)

namespace Recording

variable {α : Type}

/-- What a step ends with after a journal, and the journal then. -/
def after (x : Recording α) (j : Journal) : Except Stop α × Journal :=
  (ExceptT.run x).run j

/-- Adds a note. -/
def note (n : Note) : Recording Unit :=
  modify fun j => { j with notes := j.notes ++ [n] }

/-- The state of resolution. -/
def progress : Recording Progress := do
  return (← get).progress

/-- Changes the state of resolution. -/
def advance (f : Progress → Progress) : Recording Unit :=
  modify fun j => { j with progress := f j.progress }

/-- Fails. -/
def refuse (e : ResolveError) : Recording α :=
  throw (.refused e)

/-- The value, or a failure. -/
def orRefuse (e : ResolveError) : Option α → Recording α
  | some a => pure a
  | none => refuse e

/-- What does not touch the state. -/
def ofExcept : Except ResolveError α → Recording α
  | .ok a => pure a
  | .error e => refuse e

/-- Adds a warning. -/
def warn (w : Warning) : Recording Unit :=
  advance fun p => { p with warnings := p.warnings ++ [w] }

/-- The type name of a text, or a failure that says where the text comes from. -/
def typeName (raw context : String) : Recording String :=
  orRefuse (.invalidName raw context) (Naming.typeName? raw)

/-- Gives what the use of a pointer is resolved to. -/
def answer (pointer : String) (t : Descriptor) : Recording Descriptor := do
  note (.used pointer t)
  return t

/-! ## Schemas -/

mutual

/-- Resolves a schema in place. -/
def typeOf (d : Document) : Nat → List String → Schema → String → Recording Descriptor
  | 0, _, _, _ => throw .unfinished
  | depth + 1, path, s, context =>
    match s.ref with
    | some pointer => reference d depth path pointer
    | none =>
      if s.isComposition then refuse (.unsupportedComposition context)
      else
        match scalarOf? s with
        | some t => pure t
        | none =>
          if s.type = some "array" then arrayOf d depth path none s context
          else if isObject s then do
            return record none context (← propertiesOf d depth path s.required context s.properties)
          else refuse (.unsupportedType (s.type.getD "") context)

/-- Resolves the array that a schema describes. -/
def arrayOf (d : Document) : Nat → List String → Option String → Schema → String →
    Recording Descriptor
  | 0, _, _, _, _ => throw .unfinished
  | depth + 1, path, name?, s, context =>
    match s.items with
    | none => refuse (.missingItems context)
    | some it => do
      return .array name? (← typeOf d depth path it (context ++ "Item"))

/-- Resolves the properties of an object. -/
def propertiesOf (d : Document) : Nat → List String → List String → String →
    List (String × Schema) → Recording (List Property)
  | 0, _, _, _, _ => throw .unfinished
  | _ + 1, _, _, _, [] => pure []
  | depth + 1, path, required, context, (name, s) :: rest => do
    let type ← typeOf d depth path s (context ++ Naming.pascalCase name)
    let more ← propertiesOf d depth path required context rest
    return { name, type, format := s.format, required := required.contains name } :: more

/-- Resolves a pointer.  Its schema is expanded once; later uses give the same pointer. -/
def reference (d : Document) : Nat → List String → String → Recording Descriptor
  | 0, _, _ => throw .unfinished
  | depth + 1, path, pointer => do
    if (← progress).table.contains pointer then return (← answer pointer (.ref pointer))
    if path.contains pointer then
      advance fun p => { p with table := p.table.mark pointer }
      return (← answer pointer (.ref pointer))
    match d.schema? pointer with
    | none => refuse (.unresolvedRef pointer)
    | some s =>
      let name ← typeName (Naming.simpleName pointer) "Schema"
      advance fun p => { p with entered := p.entered ++ [pointer] }
      note (.expanded pointer)
      let resolved ← named d depth (pointer :: path) s name
      advance fun p => { p with table := p.table.insert pointer resolved }
      return (← answer pointer (.ref pointer))

/-- Resolves the target of a pointer: arrays and objects keep its name. -/
def named (d : Document) : Nat → List String → Schema → String → Recording Descriptor
  | 0, _, _, _ => throw .unfinished
  | depth + 1, path, s, name =>
    if s.ref.isSome || s.isComposition then typeOf d depth path s name
    else if s.type = some "array" then arrayOf d depth path (some name) s name
    else if isObject s then do
      return record (some name) name (← propertiesOf d depth path s.required name s.properties)
    else typeOf d depth path s name

end

/-- Resolves the schema of a parameter or header to a scalar type, if it describes one; without a
schema it is a text. -/
def primitiveOf? (d : Document) (depth : Nat) (s? : Option Schema) (context : String) :
    Recording (Option Primitive) :=
  match s? with
  | none => pure (some .string)
  | some s => do
    let t ← typeOf d depth [] s context
    return ((← progress).table.resolve? t).bind Descriptor.primitive?

/-! ## Parameters -/

/-- Resolves a declared parameter. -/
def parameter (d : Document) (depth : Nat) (operationId : String) (p : Document.Parameter) :
    Recording Param := do
  let location ← orRefuse (.unsupportedParamLocation p.name operationId p.location)
    (Location.ofName? p.location)
  let context := Naming.pascalCase operationId ++ Naming.pascalCase p.name
  let primitive? ← primitiveOf? d depth p.schema context
  let primitive ← orRefuse (.nonPrimitiveParam p.name operationId) primitive?
  return {
    name := p.name
    location
    property := {
      name := p.name
      type := .primitive primitive
      required := p.required || location == .path } }

/-- Resolves the parameters of an operation, in the order of first mention. -/
def parameters (d : Document) (depth : Nat) (operationId : String) (item : Document.PathItem)
    (o : Document.Operation) : Recording (List Param) := do
  let declared ← (item.parameters ++ o.parameters).mapM fun e => ofExcept (followParam d e)
  (mergeParameters declared).mapM fun (_, p) => parameter d depth operationId p

/-! ## Bodies -/

/-- Resolves contents of a request body, after those resolved so far. -/
def requestContents (d : Document) (depth : Nat) (operationId : String)
    (done : List (Media × Descriptor)) : Document.Content → Recording (List (Media × Descriptor))
  | [] => pure done
  | (mime, c) :: rest => do
    match Media.ofMime? (essence mime) with
    | none =>
      warn (.unsupportedRequestMedia operationId mime)
      requestContents d depth operationId done rest
    | some m =>
      match c.schema.bind (·.ref) with
      | none =>
        warn (.unnamedRequestSchema operationId mime)
        requestContents d depth operationId done rest
      | some pointer =>
        let t ← reference d depth [] pointer
        requestContents d depth operationId (addContent m t done) rest

/-- Resolves the request body of an operation.  A body of which nothing is left is none. -/
def requestBody (d : Document) (depth : Nat) (operationId : String) (o : Document.Operation) :
    Recording (Option RequestBody) := do
  match o.requestBody with
  | none => return none
  | some b =>
    let content ← requestContents d depth operationId [] b.content
    if content.isEmpty then
      warn (.emptyRequestBody operationId)
      return none
    else
      let name ← typeName operationId "operationId"
      return some { className := name ++ "Request", required := b.required, content }

/-- The name of a status, or a failure. -/
def statusName (operationId : String) (status : Status) : Recording String :=
  orRefuse (.unmappedStatus status.name operationId) (statusName? status)

/-- Resolves response headers. -/
def headerProperties (d : Document) (depth : Nat) (operationId className : String) :
    List (String × Document.Header) → Recording (List Property)
  | [] => pure []
  | (header, h) :: rest => do
    let primitive? ← primitiveOf? d depth h.schema (className ++ Naming.pascalCase header)
    let primitive ← orRefuse (.nonPrimitiveHeader header operationId) primitive?
    let more ← headerProperties d depth operationId className rest
    return { name := header, type := .primitive primitive, required := h.required } :: more

/-- The headers of a response as a named record, if it has any. -/
def responseHeaders (d : Document) (depth : Nat) (operationId className variant : String)
    (r : Document.Response) : Recording (Option Descriptor) := do
  if r.headers.isEmpty then return none
  let name := className ++ variant ++ "Headers"
  let properties ← headerProperties d depth operationId name r.headers
  return some (.object (some name) properties)

/-- Resolves a JSON body and gives the name of its response. -/
def jsonBody (d : Document) (depth : Nat) (operationId className : String) (status : Status)
    (s : Schema) : Recording (String × Descriptor) := do
  match s.ref with
  | some pointer =>
    let body ← reference d depth [] pointer
    if ((← progress).table.resolve? body).any namesResponse then
      return (← typeName (Naming.simpleName pointer) "Schema", body)
    else return (← statusName operationId status, body)
  | none =>
    let name ← statusName operationId status
    let body ← typeOf d depth [] s (className ++ name ++ "Body")
    return (name, body)

/-- Resolves a response. -/
def responseVariant (d : Document) (depth : Nat) (operationId className : String) (status : Status)
    (r : Document.Response) : Recording Variant := do
  match (jsonContent? r.content).bind (·.schema) with
  | some s =>
    let (name, body) ← jsonBody d depth operationId className status s
    let headers ← responseHeaders d depth operationId className name r
    return { name, headers, payload := .body body false }
  | none =>
    if r.content.any fun e => isBinaryContent e.2 then
      let headers ← responseHeaders d depth operationId className "File" r
      return { name := "File", headers, payload := .body .file true }
    else
      if !r.content.isEmpty then warn (.unsupportedResponseContent operationId status.name)
      let name ← statusName operationId status
      let headers ← responseHeaders d depth operationId className name r
      return { name, headers, payload := .none }

/-- Resolves the responses of an operation, after those resolved so far. -/
def responseVariants (d : Document) (depth : Nat) (operationId className : String)
    (done : List (Status × Variant)) :
    List (String × Document.Response) → Recording (List (Status × Variant))
  | [] => pure done
  | (text, r) :: rest => do
    let status ← orRefuse (.unsupportedStatus text operationId) (Status.ofName? text)
    let v ← responseVariant d depth operationId className status r
    if status == .default && !hasStatus (← progress).table v then
      refuse (.defaultWithoutCode operationId)
    if done.any fun e => e.2.name == v.name then refuse (.duplicateVariant v.name operationId)
    responseVariants d depth operationId className (Assoc.put status v done) rest

/-- Resolves the responses of an operation. -/
def responseBody (d : Document) (depth : Nat) (operationId : String) (o : Document.Operation) :
    Recording ResponseBody := do
  let name ← typeName operationId "operationId"
  let className := name ++ "Response"
  return { className, variants := ← responseVariants d depth operationId className [] o.responses }

/-! ## Documents -/

/-- Resolves an operation. -/
def operation (d : Document) (depth : Nat) (path : String) (method : Method)
    (item : Document.PathItem) (o : Document.Operation) : Recording Operation := do
  let operationId ← orRefuse (.missingOperationId method.upperName path) o.operationId
  let _ ← typeName operationId "operationId"
  let security? ← ofExcept (security d o)
  let declared ← parameters d depth operationId item o
  let params := (security?.map securityParam).toList ++
    declared.filter fun p => !isSecurityHeader security? p
  if let some name := undeclared? path params then refuse (.undeclaredPathParam name path)
  let requestBody ← requestBody d depth operationId o
  let responseBody ← responseBody d depth operationId o
  return {
    path
    method
    operationId
    summary := o.summary.or o.description
    params
    requestBody
    responseBody }

/-- Resolves a document within the state of resolution. -/
def metadata (d : Document) (depth : Nat) (namePrefix : String) : Recording Metadata := do
  let operations ← (operationsOf d).mapM fun (path, m, item, o) => operation d depth path m item o
  return {
    namePrefix := ← typeName namePrefix "Name prefix"
    operations
    refs := (← progress).table }

end Recording
end Resolve
end ApiContract
