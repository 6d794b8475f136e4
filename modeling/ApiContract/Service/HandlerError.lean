import ApiContract.Service.RequestError

/-!
# Failures of handlers

What a service, and the handler that serves it, may fail with.

**Results:** a refused request is answered with its reason; everything else with status 500 and
nothing more, so that no detail leaves the server.
-/

namespace ApiContract

/-- A failure of a service. -/
structure ServiceError where
  message : String
  /-- The wording of the cause, if there is one. -/
  source : Option String := none
deriving DecidableEq, Inhabited

/-- The failure of a service that could not read or write a file. -/
def ServiceError.ofIo (detail : String) : ServiceError :=
  { message := "I/O failure", source := some detail }

/-- Why a handler has no response of the service to give. -/
inductive HandlerError
  | request (e : RequestError)
  | service (e : ServiceError)
  /-- A status that no response can have. -/
  | invalidStatus (code : Int)
  /-- A header field that no response can have. -/
  | invalidHeader (name : String)
  | serialize (detail : String)
  | io (detail : String)
deriving DecidableEq, Inhabited

namespace HandlerError

/-- The wording of a failure. -/
def message : HandlerError → String
  | request e => e.message
  | service e => "Service failed: " ++ e.message
  | invalidStatus code => s!"Invalid response status code: {code}"
  | invalidHeader name => s!"Invalid value for response header '{name}'"
  | serialize detail => "Failed to serialize response: " ++ detail
  | io detail => "Failed to read response file: " ++ detail

/-- The status of the answer. -/
def status : HandlerError → Nat
  | request _ => 400
  | _ => 500

/-- The answer. -/
def response : HandlerError → Response
  | request e => e.response
  | e => { status := e.status }

end HandlerError
end ApiContract
