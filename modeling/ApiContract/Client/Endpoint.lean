import ApiContract.Client.Error
import ApiContract.Path.Template
import ApiContract.Url.Basic

/-!
# Addresses of operations

**Input:** the URL under which a service is found, the path template of an operation, and the values
of its path parameters.

**Results:** `Client.endpoint` gives the URL of the operation: the segments of the template, filled
with the values, stand behind the path of the service.  A slash in a value does not end its segment,
and a segment of one or two dots is left out.
-/

namespace ApiContract
namespace Client

/-- The URL of an operation. -/
def endpoint (base template : String) (values : List (String × String)) : Except ClientError Url :=
  match Url.ofText? base with
  | none => .error (.invalidBaseUrl base)
  | some u =>
    .ok ((Template.segments template).foldl
      (fun u s => u.push (String.ofList (Template.filled values s))) u.withoutEmptyEnd)

end Client
end ApiContract
