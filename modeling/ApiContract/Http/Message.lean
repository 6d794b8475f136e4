import ApiContract.Http.Form
import ApiContract.Http.Headers

/-!
# Requests and responses

A request and a response as values: what a server takes and what it gives.

**Results:** `Request.path` and `Request.query` take the target of a request apart, which may name a
host before its path.
-/

namespace ApiContract

/-- A request. -/
structure Request where
  /-- Name of the method, in capital letters. -/
  method : String
  /-- Path and query as they are written. -/
  target : String
  headers : Headers := {}
  body : ByteArray := .empty
deriving DecidableEq, Inhabited

/-- A response. -/
structure Response where
  status : Nat
  headers : Headers := {}
  body : ByteArray := .empty
deriving DecidableEq, Inhabited

namespace Request

/-- What the target says before a fragment and a query. -/
def address (r : Request) : List Char :=
  r.target.toList.takeWhile fun c => c ≠ '?' && c ≠ '#'

/-- The path of the target.  Behind a host it is never empty. -/
def path (r : Request) : List Char :=
  let address := r.address
  if address.head? = some '/' ∨ address = ['*'] then address
  else
    match address.dropWhile (· ≠ ':') with
    | ':' :: '/' :: '/' :: rest =>
      let path := rest.dropWhile (· ≠ '/')
      if path.isEmpty then ['/'] else path
    | _ => []

/-- The query of the target. -/
def query (r : Request) : List Char :=
  match r.target.toList.drop r.address.length with
  | '?' :: rest => rest.takeWhile (· ≠ '#')
  | _ => []

/-- The last value that the query gives to a name. -/
def queryParam? (r : Request) (name : String) : Option String :=
  Form.get? (Form.ofBytes (Bytes.ofChars r.query)).reverse name

end Request

namespace Response

/-- A response that carries a text. -/
def plain (status : Nat) (text : String) : Response :=
  { status, headers := Headers.insert {} "content-type" "text/plain; charset=utf-8".toUTF8
    body := text.toUTF8 }

/-- A response that carries JSON text. -/
def ofJson (status : Nat) (text : String) : Response :=
  { status, headers := Headers.insert {} "content-type" "application/json".toUTF8
    body := text.toUTF8 }

end Response
end ApiContract
