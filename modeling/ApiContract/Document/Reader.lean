import ApiContract.Document.Basic
import ApiContract.Node.Basic
import ApiContract.Yaml.Data

/-!
# Reading documents

**Input:** the data of a text (`Node`).

**Results:** the document, or nothing if the data has another shape.  Names that the model does not
know are passed over.  `room` is the number of levels of lists and records that may still be
entered.
-/

namespace ApiContract
namespace Document

open Node (field defaulted ifGiven? orDefault? given?)

/-- Reads a schema. -/
def Schema.read? : Nat → Node → Option Schema
  | 0, _ => none
  | room + 1, n => do
    let deeper : Node → Option Schema :=
      match room with
      | 0 => fun _ => none
      | room + 1 => Schema.read? room
    let same : Node → Option Schema := Schema.read? room
    let [ref, type, format, properties, required, items, extra, oneOf, anyOf, allOf, description] ←
      n.fields? (room + 1) [field "$ref", field "type", field "format", defaulted "properties",
        defaulted "required", field "items", field "additionalProperties", field "oneOf",
        field "anyOf", field "allOf", field "description"] | none
    return {
      ref := ← ifGiven? Node.text? ref
      type := ← ifGiven? Node.text? type
      format := ← ifGiven? Node.text? format
      properties := ← orDefault? [] (Node.map? room some deeper) properties
      required := ← orDefault? [] (Node.list? room Node.text?) required
      items := ← ifGiven? same items
      additionalProperties := ← ifGiven? (Node.any? room) extra
      oneOf := ← ifGiven? (Node.list? room deeper) oneOf
      anyOf := ← ifGiven? (Node.list? room deeper) anyOf
      allOf := ← ifGiven? (Node.list? room deeper) allOf
      description := ← ifGiven? Node.text? description }

/-- Reads general information. -/
def Info.read? (room : Nat) (n : Node) : Option Info := do
  let [title, version, description] ←
    n.fields? room [field "title", field "version", field "description"] | none
  return {
    title := ← ifGiven? Node.text? title
    version := ← ifGiven? Node.text? version
    description := ← ifGiven? Node.text? description }

/-- Reads a parameter. -/
def Parameter.read? (room : Nat) (n : Node) : Option Parameter := do
  let [name, location, required, schema, description] ←
    n.fields? room [field "name", field "in", defaulted "required", field "schema",
      field "description"] | none
  return {
    name := ← given? Node.text? name
    location := ← given? Node.text? location
    required := ← orDefault? false Node.flag? required
    schema := ← ifGiven? (Schema.read? (room - 1)) schema
    description := ← ifGiven? Node.text? description }

/-- Reads the pointer of a record that has one. -/
def refOf? (room : Nat) (n : Node) : Option String := do
  let [ref] ← n.fields? room [field "$ref"] | none
  given? Node.text? ref

/-- Reads a parameter or a pointer to one.  The data is settled first, so a plain word that stands
for a number is no text here. -/
def ParameterEntry.read? (room : Nat) (n : Node) : Option ParameterEntry := do
  let n ← n.settle? room
  match n with
  | .record _ =>
    match refOf? room n with
    | some pointer => return .ref pointer
    | none => return .inline (← Parameter.read? room n)
  | _ => return .inline (← Parameter.read? room n)

/-- Reads the content in one media type. -/
def MediaContent.read? (room : Nat) (n : Node) : Option MediaContent := do
  let [schema] ← n.fields? room [field "schema"] | none
  return { schema := ← ifGiven? (Schema.read? (room - 1)) schema }

/-- Reads contents by media type. -/
def Content.read? (room : Nat) : Node → Option Content :=
  Node.map? room some (MediaContent.read? (room - 1))

/-- Reads a request body. -/
def RequestBody.read? (room : Nat) (n : Node) : Option RequestBody := do
  let [required, content] ← n.fields? room [defaulted "required", defaulted "content"] | none
  return {
    required := ← orDefault? false Node.flag? required
    content := ← orDefault? [] (Content.read? (room - 1)) content }

/-- Reads a header. -/
def Header.read? (room : Nat) (n : Node) : Option Header := do
  let [required, schema, description] ←
    n.fields? room [defaulted "required", field "schema", field "description"] | none
  return {
    required := ← orDefault? false Node.flag? required
    schema := ← ifGiven? (Schema.read? (room - 1)) schema
    description := ← ifGiven? Node.text? description }

/-- Reads a response. -/
def Response.read? (room : Nat) (n : Node) : Option Response := do
  let [description, headers, content] ←
    n.fields? room [field "description", defaulted "headers", defaulted "content"] | none
  return {
    description := ← ifGiven? Node.text? description
    headers := ← orDefault? [] (Node.map? (room - 1) some (Header.read? (room - 2))) headers
    content := ← orDefault? [] (Content.read? (room - 1)) content }

/-- Reads a security requirement. -/
def Requirement.read? (room : Nat) : Node → Option Requirement :=
  Node.map? room some (Node.list? (room - 1) Node.text?)

/-- Reads an operation. -/
def Operation.read? (room : Nat) (n : Node) : Option Operation := do
  let [operationId, summary, description, parameters, requestBody, responses, security] ←
    n.fields? room [field "operationId", field "summary", field "description",
      defaulted "parameters", field "requestBody", defaulted "responses", field "security"] | none
  return {
    operationId := ← ifGiven? Node.text? operationId
    summary := ← ifGiven? Node.text? summary
    description := ← ifGiven? Node.text? description
    parameters :=
      ← orDefault? [] (Node.list? (room - 1) (ParameterEntry.read? (room - 2))) parameters
    requestBody := ← ifGiven? (RequestBody.read? (room - 1)) requestBody
    responses := ← orDefault? [] (Node.map? (room - 1) some (Response.read? (room - 2))) responses
    security := ← ifGiven? (Node.list? (room - 1) (Requirement.read? (room - 2))) security }

/-- Reads the operations of a path. -/
def PathItem.read? (room : Nat) (n : Node) : Option PathItem := do
  let [get, post, put, patch, delete, parameters] ←
    n.fields? room [field "get", field "post", field "put", field "patch", field "delete",
      defaulted "parameters"] | none
  let operation := ifGiven? (Operation.read? (room - 1))
  return {
    get := ← operation get
    post := ← operation post
    put := ← operation put
    patch := ← operation patch
    delete := ← operation delete
    parameters :=
      ← orDefault? [] (Node.list? (room - 1) (ParameterEntry.read? (room - 2))) parameters }

/-- Reads a security scheme. -/
def SecurityScheme.read? (room : Nat) (n : Node) : Option SecurityScheme := do
  let [type, scheme, name, location, bearerFormat] ←
    n.fields? room [field "type", field "scheme", field "name", field "in",
      field "bearerFormat"] | none
  return {
    type := ← given? Node.text? type
    scheme := ← ifGiven? Node.text? scheme
    name := ← ifGiven? Node.text? name
    location := ← ifGiven? Node.text? location
    bearerFormat := ← ifGiven? Node.text? bearerFormat }

/-- Reads shared definitions. -/
def Components.read? (room : Nat) (n : Node) : Option Components := do
  let [schemas, parameters, securitySchemes] ←
    n.fields? room [defaulted "schemas", defaulted "parameters", defaulted "securitySchemes"] | none
  return {
    schemas := ← orDefault? [] (Node.map? (room - 1) some (Schema.read? (room - 2))) schemas
    parameters :=
      ← orDefault? [] (Node.map? (room - 1) some (ParameterEntry.read? (room - 2))) parameters
    securitySchemes :=
      ← orDefault? [] (Node.map? (room - 1) some (SecurityScheme.read? (room - 2)))
        securitySchemes }

/-- Reads a document. -/
def read? (room : Nat) (n : Node) : Option Document := do
  let [openapi, info, paths, components, security] ←
    n.fields? room [field "openapi", field "info", defaulted "paths", defaulted "components",
      field "security"] | none
  return {
    openapi := ← ifGiven? Node.text? openapi
    info := ← ifGiven? (Info.read? (room - 1)) info
    paths := ← orDefault? [] (Node.map? (room - 1) some (PathItem.read? (room - 2))) paths
    components := ← orDefault? {} (Components.read? (room - 1)) components
    security := ← ifGiven? (Node.list? (room - 1) (Requirement.read? (room - 2))) security }

/-- The document of a JSON text. -/
def ofJson? (s : String) : Option Document :=
  (Json.Tree.parse? s).bind fun t => read? Json.depthLimit (Node.ofTree t)

/-- The document of a YAML text. -/
def ofYaml? (s : String) : Option Document :=
  (Yaml.data? s).bind (read? Yaml.depthLimit)

end Document
end ApiContract
