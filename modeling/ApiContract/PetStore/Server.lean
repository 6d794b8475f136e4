import ApiContract.PetStore.Handlers
import ApiContract.Service.Router

/-!
# The server of a pet store

**Input:** requests, one after the other.

**Results:** `Server.answer` gives the response to a request and the server afterwards.  Whatever
comes of a request, what was put off until it is done is done before the response is given, so that
no temporary file stays behind.
-/

namespace ApiContract
namespace PetStore

/-- What a pet store serves. -/
inductive Endpoint
  | listPets
  | createPet
  | showPet
  | deletePet
  | getAvatar
  | putAvatar
  | redirect
  | customPet
  /-- A greeting, where a store is served beside something else. -/
  | greeting
deriving DecidableEq, Inhabited

/-- Where each of them is served. -/
def endpoints : List (String × String × Endpoint) :=
  [("/pets", "GET", .listPets), ("/pets", "POST", .createPet),
    ("/pets/\x7bpetId\x7d", "GET", .showPet), ("/pets/\x7bpetId\x7d", "DELETE", .deletePet),
    ("/pets/\x7bpetId\x7d/avatar", "GET", .getAvatar),
    ("/pets/\x7bpetId\x7d/avatar", "PUT", .putAvatar),
    ("/redirect", "GET", .redirect), ("/custom-pet", "POST", .customPet)]

/-- A pet store that is served. -/
structure Server where
  store : Store := .initial
  disk : Disk
  routes : Router Endpoint := .ofList endpoints
deriving DecidableEq, Inhabited

namespace Server

/-- A new server on a disk. -/
def new (d : Disk) : Server where
  disk := d

/-- A new server beside a greeting, which is served at the given path, if there is one. -/
def initial (greetingAt : Option String) : Server :=
  { new (.blank ["work"]) with
    routes := .ofList ((greetingAt.map fun path => (path, "GET", .greeting)).toList ++ endpoints) }

/-- What greets a client. -/
def greeting : String :=
  "bound"

/-- What is served, given what it leaves of the store only. -/
def onStore (w : Workspace) (r : Store × Except HandlerError Response) : Served :=
  ⟨r.1, w, r.2⟩

/-- What comes of a request that has reached an endpoint. -/
def serve (e : Endpoint) (petId : Option String) (r : Request) (s : Store) (w : Workspace) :
    Served :=
  match e with
  | .listPets => ⟨s, w, listPets r s⟩
  | .createPet => onStore w (createPet r s)
  | .showPet => ⟨s, w, showPet r petId s⟩
  | .deletePet => onStore w (deletePet r petId s)
  | .getAvatar => getAvatar petId s w
  | .putAvatar => putAvatar r petId s w
  | .redirect => ⟨s, w, redirect⟩
  | .customPet => onStore w (takeCustomPet r s)
  | .greeting => ⟨s, w, .ok (.plain 200 greeting)⟩

/-- Serves a request, and does what was put off until then. -/
def settle (v : Server) (e : Endpoint) (petId : Option String) (r : Request) : Server × Response :=
  let served := serve e petId r v.store { disk := v.disk }
  let disk := (served.workspace.registry.cleanup served.workspace.disk).disk
  ({ v with store := served.store, disk },
    match served.result with
    | .ok response => response
    | .error e => e.response)

/-- The value of a parameter without its encoding, if it is a text. -/
def decoded? (raw : List Char) : Option String :=
  Bytes.text? (Text.Percent.decode (Bytes.ofChars raw))

/-- The response to a request whose path holds a parameter that is no text. -/
def undecodable (name : String) : Response :=
  .plain 400 ("Invalid URL: Invalid UTF-8 in \x60" ++ name ++ "\x60")

/-- A response without its body if the request asks for the head only. -/
def headOnly (r : Request) (response : Response) : Response :=
  if r.method = "HEAD" then { response with body := .empty } else response

/-- The response to a request, and the server afterwards. -/
def answer (v : Server) (r : Request) : Server × Response :=
  match v.routes.route r.method r.path with
  | .nowhere => (v, { status := 404 })
  | .otherMethods allowed =>
    (v, { status := 405
          headers := Headers.insert {} "allow" (String.intercalate "," allowed).toUTF8 })
  | .found e params =>
    let petId := (params.lookup "petId").map decoded?
    if petId = some none then (v, headOnly r (undecodable "petId"))
    else
      let (v, response) := v.settle e petId.join r
      (v, headOnly r response)

/-- The responses to requests that come one after the other, and the server afterwards. -/
def run (v : Server) : List Request → Server × List Response
  | [] => (v, [])
  | r :: rs =>
    let (v, response) := v.answer r
    let (v, responses) := run v rs
    (v, response :: responses)

end Server
end PetStore
end ApiContract
