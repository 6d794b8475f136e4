import ApiContract.Assoc
import ApiContract.Decimal.Whole
import ApiContract.RefTable

/-!
# Resolved operations

What an API document says, in the form that code is generated from: operations with parameters,
request and response bodies, and the table of the schemas they name.
-/

namespace ApiContract

/-! ## Enumerations -/

/-- HTTP methods of operations. -/
inductive Method
  | get
  | post
  | put
  | patch
  | delete
deriving DecidableEq, Inhabited

namespace Method

/-- All methods, in the order in which the operations of a path are taken. -/
def all : List Method :=
  [.get, .post, .put, .patch, .delete]

/-- The name of a method in small letters. -/
def name : Method → String
  | .get => "get"
  | .post => "post"
  | .put => "put"
  | .patch => "patch"
  | .delete => "delete"

/-- The name of a method in capitals. -/
def upperName (m : Method) : String :=
  String.ofList (m.name.toList.map Char.toUpper)

/-- The method of a name in small letters. -/
def ofName? (s : String) : Option Method :=
  all.find? (·.name == s)

end Method

/-- Where a parameter is read from. -/
inductive Location
  | query
  | path
  | header
deriving DecidableEq, Inhabited

namespace Location

/-- All locations. -/
def all : List Location :=
  [.query, .path, .header]

/-- The name of a location. -/
def name : Location → String
  | .query => "query"
  | .path => "path"
  | .header => "header"

/-- The location of a name. -/
def ofName? (s : String) : Option Location :=
  all.find? (·.name == s)

end Location

/-- Media types of request bodies. -/
inductive Media
  | json
  /-- Recognized, but never read. -/
  | xml
  | form
  | multipart
deriving DecidableEq, Inhabited

namespace Media

/-- All media types. -/
def all : List Media :=
  [.json, .xml, .form, .multipart]

/-- The variant name of a media type. -/
def tag : Media → String
  | .json => "Json"
  | .xml => "Xml"
  | .form => "Form"
  | .multipart => "MultipartForm"

/-- The MIME type. -/
def mime : Media → String
  | .json => "application/json"
  | .xml => "application/xml"
  | .form => "application/x-www-form-urlencoded"
  | .multipart => "multipart/form-data"

/-- The media type of a MIME type. -/
def ofMime? (s : String) : Option Media :=
  all.find? (·.mime == s)

/-- The media type of a variant name. -/
def ofTag? (s : String) : Option Media :=
  all.find? (·.tag == s)

end Media

/-- The status of a response. -/
inductive Status
  /-- A fixed status code. -/
  | code (n : Nat)
  /-- Every status without a response of its own. -/
  | default
deriving DecidableEq, Inhabited

namespace Status

/-- The text of a status. -/
def name : Status → String
  | .code n => toString n
  | .default => "default"

/-- The status of a text: the word `default`, or a number of sixteen bits. -/
def ofName? (s : String) : Option Status :=
  if s = "default" then some .default
  else (Decimal.unsignedBits? 16 s.toList).map .code

/-- What is said of a text that names no status. -/
def refusal (s : String) : String :=
  s!"unsupported response status '{s}'"

end Status

/-! ## Security -/

/-- The header of bearer tokens. -/
def authorizationHeader : String :=
  "Authorization"

/-- How an operation knows its caller. -/
inductive Security
  | bearerToken
  /-- A key in a header of the given name. -/
  | header (name : String)
deriving DecidableEq, Inhabited

/-- The header that carries the caller's credentials. -/
def Security.headerName : Security → String
  | .bearerToken => authorizationHeader
  | .header name => name

/-! ## Operations -/

/-- A parameter. -/
structure Param where
  /-- Wire name. -/
  name : String
  /-- Where it is read from. -/
  location : Location
  /-- Type of its value. -/
  property : Property
deriving Inhabited, DecidableEq

/-- Whether a parameter must be given. -/
def Param.required (p : Param) : Bool :=
  p.property.required

/-- A request body. -/
structure RequestBody where
  /-- Name of the sum of its media types. -/
  className : String
  /-- Whether a request has to carry it. -/
  required : Bool
  /-- Accepted media types with the types of their contents. -/
  content : List (Media × Descriptor)
deriving Inhabited, DecidableEq

/-- The body as a sum with one variant for each media type. -/
def RequestBody.sum (b : RequestBody) : Descriptor :=
  .oneOf b.className (b.content.map fun (m, t) => (m.tag, [t]))

/-- What a response carries. -/
inductive Payload
  /-- Nothing. -/
  | none
  /-- A body, which may be a file. -/
  | body (type : Descriptor) (isFile : Bool)
deriving Inhabited, DecidableEq

/-- One of the responses of an operation. -/
structure Variant where
  /-- Name of the variant. -/
  name : String
  /-- Headers, as a record. -/
  headers : Option Descriptor
  /-- Body. -/
  payload : Payload
deriving Inhabited, DecidableEq

namespace Variant

/-- Type of the body. -/
def body? (v : Variant) : Option Descriptor :=
  match v.payload with
  | .none => .none
  | .body t _ => some t

/-- Whether the body is a file. -/
def isFile (v : Variant) : Bool :=
  match v.payload with
  | .none => false
  | .body _ isFile => isFile

/-- What the variant carries: the body, then the headers. -/
def members (v : Variant) : List Descriptor :=
  v.body?.toList ++ v.headers.toList

end Variant

/-- The responses of an operation. -/
structure ResponseBody where
  /-- Name of the sum of the responses. -/
  className : String
  /-- Responses by status. -/
  variants : List (Status × Variant)
deriving Inhabited, DecidableEq

/-- The responses as a sum with one variant for each response; a variant name that occurs again
takes the place of the first. -/
def ResponseBody.sum (b : ResponseBody) : Descriptor :=
  .oneOf b.className (b.variants.foldl (fun vs (_, v) => Assoc.put v.name v.members vs) [])

/-- The response for statuses without one of their own. -/
def ResponseBody.default? (b : ResponseBody) : Option Variant :=
  b.variants.lookup .default

/-- An operation. -/
structure Operation where
  /-- Path template. -/
  path : String
  /-- Method. -/
  method : Method
  /-- The document's `operationId`. -/
  operationId : String
  /-- Summary. -/
  summary : Option String
  /-- Parameters in the order of the contract. -/
  params : List Param
  /-- Request body. -/
  requestBody : Option RequestBody
  /-- Responses. -/
  responseBody : ResponseBody
deriving Inhabited, DecidableEq

/-- The parameters read from one place. -/
def Operation.paramsIn (o : Operation) (l : Location) : List Param :=
  o.params.filter (·.location == l)

/-- A resolved document. -/
structure Metadata where
  /-- First part of the names of contract, controller and client. -/
  namePrefix : String
  /-- Operations in the order of the document. -/
  operations : List Operation
  /-- Named schemas. -/
  refs : RefTable
deriving Inhabited

end ApiContract
