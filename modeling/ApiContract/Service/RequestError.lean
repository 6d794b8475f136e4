import ApiContract.Descriptor.Exchange
import ApiContract.Http.Message

/-!
# Refused requests

The four reasons for which a request is answered with status 400, and what the client is told.

**Results:** the wording of a reason, its JSON form, which `ofNode?` reads back, and the answer.
-/

namespace ApiContract

/-- Why a request is refused. -/
inductive RequestError
  /-- A parameter that must be given is absent or empty. -/
  | noParamFound (param : String)
  /-- A parameter does not stand for a value of its type. -/
  | badParamFormat (param : String)
  /-- The request has no body of a declared media type. -/
  | noBodyFound
  /-- The body is not what its media type and the operation ask for. -/
  | illegalBody
deriving DecidableEq, Inhabited

namespace RequestError

/-- The name of a reason. -/
def name : RequestError → String
  | noParamFound _ => "noParamFound"
  | badParamFormat _ => "badParamFormat"
  | noBodyFound => "noBodyFound"
  | illegalBody => "illegalBody"

/-- The parameter that a reason is about. -/
def param? : RequestError → Option String
  | noParamFound p => some p
  | badParamFormat p => some p
  | _ => none

/-- The wording of a reason. -/
def message : RequestError → String
  | noParamFound p => s!"Required parameter '{p}' not found"
  | badParamFormat p => s!"Parameter '{p}' has an invalid format"
  | noBodyFound => "Request body not found"
  | illegalBody => "Request body is malformed"

/-- A reason as JSON. -/
def json (e : RequestError) : Json.Value :=
  .record (("type", .text e.name) ::
    match e.param? with
    | some p => [("paramName", .text p)]
    | none => [])

/-! ## Reading -/

/-- Reads a reason with a parameter, which is all that is left beside its name. -/
def ofParam? (make : String → RequestError) (rest : Node) : Option RequestError := do
  let [param] ← rest.fields? 1 [Node.field "paramName"] | none
  return make (← Node.given? Node.text? param)

/-- Reads a reason from its name and what is given beside it. -/
def ofName? (name : String) (rest : Node) : Option RequestError :=
  let bare (e : RequestError) : Option RequestError :=
    match rest with
    | .list _ (_ :: _) => none
    | _ => some e
  match name with
  | "noParamFound" => ofParam? noParamFound rest
  | "badParamFormat" => ofParam? badParamFormat rest
  | "noBodyFound" => bare noBodyFound
  | "illegalBody" => bare illegalBody
  | _ => none

/-- Whether a member of a record gives the name of a reason. -/
def isName (member : Node × Node) : Bool :=
  member.1.text? == some "type"

/-- Reads a reason, within `room` levels.  What is given beside the name and the parameter may be
any value. -/
def ofNode? (room : Nat) (n : Node) : Option RequestError :=
  if room = 0 then none
  else
    match n with
    | .record members =>
      match members.filter isName, Node.settleMembers? (room - 1) (members.filter (!isName ·)) with
      | [(_, name)], some rest => name.text?.bind fun name => ofName? name (.record rest)
      | _, _ => none
    | .list true (name :: items) =>
      match name.text?, Node.settleItems? (room - 1) items with
      | some name, some items => ofName? name (.list true items)
      | _, _ => none
    | _ => none

end RequestError

/-- What the client of a refused request is told. -/
structure BadRequest where
  title : String
  status : Nat
  details : RequestError
deriving DecidableEq, Inhabited

namespace BadRequest

/-- What the client is told of a reason. -/
def ofError (details : RequestError) : BadRequest :=
  { title := "Bad Request", status := 400, details }

/-- What the client is told, as JSON. -/
def json (b : BadRequest) : Json.Value :=
  .record [("title", .text b.title), ("status", .ofNat b.status), ("details", b.details.json)]

/-- Reads what a client was told. -/
def ofNode? (room : Nat) (n : Node) : Option BadRequest := do
  let [title, status, details] ←
    n.fields? room [Node.field "title", Node.field "status", Node.field "details"] | none
  return {
    title := ← Node.given? Node.text? title
    status := ← Node.given? (Node.unsigned? 16) status
    details := ← Node.given? (RequestError.ofNode? (room - 1)) details }

end BadRequest

/-- The answer to a refused request. -/
def RequestError.response (e : RequestError) : Response :=
  .ofJson 400 (BadRequest.ofError e).json.compact

end ApiContract
