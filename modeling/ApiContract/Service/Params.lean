import ApiContract.Service.RequestError
import ApiContract.Service.Scalar

/-!
# Reading parameters

**Input:** the text of a parameter, if it is given, and a reader for its type.

**Results:** `readOptional` and `readRequired`.  A parameter that is given but empty counts as
absent; a text that the reader refuses is an error in either case.
-/

namespace ApiContract
namespace Param

variable {α : Type}

/-- Reads a parameter that may be absent. -/
def readOptional (name : String) (raw : Option String) (read : String → Option α) :
    Except RequestError (Option α) :=
  match raw with
  | none => .ok none
  | some s =>
    if s = "" then .ok none
    else
      match read s with
      | some a => .ok (some a)
      | none => .error (.badParamFormat name)

/-- Reads a parameter that must be given. -/
def readRequired (name : String) (raw : Option String) (read : String → Option α) :
    Except RequestError α :=
  match readOptional name raw read with
  | .ok (some a) => .ok a
  | .ok none => .error (.noParamFound name)
  | .error e => .error e

/-- The text of the first header field of a name, if there is one. -/
def headerText (h : Headers) (name : String) : Except RequestError (Option String) :=
  match h.get? name with
  | none => .ok none
  | some v =>
    match Headers.valueText? v with
    | some s => .ok (some s)
    | none => .error (.badParamFormat name)

end Param
end ApiContract
