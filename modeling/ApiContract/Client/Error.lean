/-!
# Failures of calls

**Results:** the wording of a failure, its status if the server gave one, and whether the call may
succeed when it is made again.
-/

namespace ApiContract

/-- Why a call fails. -/
inductive ClientError
  /-- The request cannot be made or sent. -/
  | request (detail : String)
  /-- The server gave a status that the operation does not declare. -/
  | unexpectedStatus (status : Nat) (body : String)
  | missingHeader (name : String)
  | invalidHeader (name : String)
  | invalidBaseUrl (detail : String)
  | unsupportedMediaType (mime : String)
  | io (detail : String)
deriving DecidableEq, Inhabited

namespace ClientError

/-- The wording of a failure. -/
def message : ClientError → String
  | request detail => "HTTP request failed: " ++ detail
  | unexpectedStatus status body => s!"Unexpected HTTP status {status}: " ++ body
  | missingHeader name => s!"Missing response header '{name}'"
  | invalidHeader name => s!"Invalid response header '{name}'"
  | invalidBaseUrl detail => "Invalid base URL: " ++ detail
  | unsupportedMediaType mime => "Unsupported media type: " ++ mime
  | io detail => "I/O error: " ++ detail

/-- The status that the server gave. -/
def status? : ClientError → Option Nat
  | unexpectedStatus status _ => some status
  | _ => none

/-- Whether the call may succeed when it is made again: the server failed, or is too busy. -/
def isRetryable : ClientError → Bool
  | unexpectedStatus status _ => status ≥ 500 || status = 429
  | _ => false

end ClientError
end ApiContract
