import ApiContract.Descriptor.Exchange
import ApiContract.Operation

/-!
# Operations as JSON

Operations and what they consist of, in the forms of `Descriptor.json`.

A record by status can only be written and read if every status is the default: a member's name is a
form that carries nothing.
-/

namespace ApiContract

open Node (field given? ifGiven?)

/-! ## Writing -/

/-- A parameter as JSON. -/
def Param.json (p : Param) : Json.Value :=
  .record [("name", .text p.name), ("location", .text p.location.name),
    ("property", Property.json p.property)]

/-- A request body as JSON. -/
def RequestBody.json (b : RequestBody) : Json.Value :=
  .record [("class_name", .text b.className), ("required", .flag b.required),
    ("content", .record (b.content.map fun (m, t) => (m.tag, t.json)))]

/-- A descriptor that may be absent, as JSON. -/
def Descriptor.jsonOrNull : Option Descriptor → Json.Value
  | some t => t.json
  | none => .null

/-- A response as JSON. -/
def Variant.json (v : Variant) : Json.Value :=
  let common := [("name", .text v.name), ("headers", Descriptor.jsonOrNull v.headers)]
  match v.payload with
  | .none => .form "JustStatus" (.record common)
  | .body type isFile =>
    .form "Parametrized" (.record (common ++ [("body", type.json), ("is_file", .flag isFile)]))

/-- A status as JSON. -/
def Status.json : Status → Json.Value
  | .code n => .form "Code" (.ofNat n)
  | .default => .text "Default"

/-- A status as the name of a member; a fixed code is none. -/
def Status.memberName? : Status → Option String
  | .code _ => none
  | .default => some "Default"

/-- Responses as JSON. -/
def ResponseBody.json? (b : ResponseBody) : Option Json.Value := do
  let variants ← b.variants.mapM fun (s, v) => s.memberName?.map (·, v.json)
  return .record [("class_name", .text b.className), ("variants", .record variants)]

/-- A security scheme as JSON. -/
def Security.json : Security → Json.Value
  | .bearerToken => .text "BearerToken"
  | .header name => .form "SecurityHeader" (.record [("header_name", .text name)])

/-- An operation as JSON. -/
def Operation.json? (o : Operation) : Option Json.Value := do
  let responses ← o.responseBody.json?
  return .record [("path", .text o.path), ("method", .text o.method.name),
    ("operation_id", .text o.operationId), ("summary", .ofText? o.summary),
    ("params", .list (o.params.map Param.json)),
    ("request_body", (o.requestBody.map RequestBody.json).getD .null),
    ("response_body", responses)]

/-! ## Reading -/

/-- Reads a parameter. -/
def Param.ofNode? (room : Nat) (n : Node) : Option Param := do
  let [name, location, property] ←
    n.fields? room [field "name", field "location", field "property"] | none
  return {
    name := ← given? Node.text? name
    location := ← given? (Node.bareForm? Location.ofName? (room - 1)) location
    property := ← given? (Property.ofNode? (room - 1)) property }

/-- Reads a request body. -/
def RequestBody.ofNode? (room : Nat) (n : Node) : Option RequestBody := do
  let [className, required, content] ←
    n.fields? room [field "class_name", field "required", field "content"] | none
  return {
    className := ← given? Node.text? className
    required := ← given? Node.flag? required
    content := ← given? (Node.map? (room - 1) Media.ofTag? (Descriptor.ofNode? (room - 2)))
      content }

/-- Reads a response. -/
def Variant.ofNode? (room : Nat) (n : Node) : Option Variant :=
  let type? := Descriptor.ofNode? (room - 2)
  match n.form? room with
  | some ("JustStatus", some n) => do
    let [name, headers] ← n.fields? (room - 1) [field "name", field "headers"] | none
    return {
      name := ← given? Node.text? name
      headers := ← ifGiven? type? headers
      payload := .none }
  | some ("Parametrized", some n) => do
    let [name, headers, body, isFile] ←
      n.fields? (room - 1) [field "name", field "headers", field "body", field "is_file"] | none
    return {
      name := ← given? Node.text? name
      headers := ← ifGiven? type? headers
      payload := .body (← given? type? body) (← given? Node.flag? isFile) }
  | _ => none

/-- Reads a status. -/
def Status.ofNode? (room : Nat) (n : Node) : Option Status :=
  match n.form? room with
  | some ("Default", none) => some .default
  | some ("Default", some .null) => some .default
  | some ("Code", some n) => (n.unsigned? 16).map .code
  | _ => none

/-- Reads the name of a member as a status. -/
def Status.ofMemberName? (s : String) : Option Status :=
  if s = "Default" then some .default else none

/-- Reads responses. -/
def ResponseBody.ofNode? (room : Nat) (n : Node) : Option ResponseBody := do
  let [className, variants] ← n.fields? room [field "class_name", field "variants"] | none
  return {
    className := ← given? Node.text? className
    variants := ← given? (Node.map? (room - 1) Status.ofMemberName? (Variant.ofNode? (room - 2)))
      variants }

/-- Reads a security scheme. -/
def Security.ofNode? (room : Nat) (n : Node) : Option Security :=
  match n.form? room with
  | some ("BearerToken", none) => some .bearerToken
  | some ("BearerToken", some .null) => some .bearerToken
  | some ("SecurityHeader", some n) => do
    let [name] ← n.fields? (room - 1) [field "header_name"] | none
    return .header (← given? Node.text? name)
  | _ => none

/-- Reads an operation. -/
def Operation.ofNode? (room : Nat) (n : Node) : Option Operation := do
  let [path, method, operationId, summary, params, requestBody, responseBody] ←
    n.fields? room [field "path", field "method", field "operation_id", field "summary",
      field "params", field "request_body", field "response_body"] | none
  return {
    path := ← given? Node.text? path
    method := ← given? (Node.bareForm? Method.ofName? (room - 1)) method
    operationId := ← given? Node.text? operationId
    summary := ← ifGiven? Node.text? summary
    params := ← given? (Node.list? (room - 1) (Param.ofNode? (room - 2))) params
    requestBody := ← ifGiven? (RequestBody.ofNode? (room - 1)) requestBody
    responseBody := ← given? (ResponseBody.ofNode? (room - 1)) responseBody }

end ApiContract
