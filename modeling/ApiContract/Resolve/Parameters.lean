import ApiContract.Operation
import ApiContract.Resolve.Schema
import ApiContract.Text.Blank

/-!
# Resolution of parameters and security

**Results:**

* `followParam` gives the parameter at the end of a chain of pointers;
* `parameters` gives the parameters of an operation: those of its path, then its own, of several
  with the same name and place the last one at the place of the first;
* `security` picks the scheme by which an operation knows its caller.
-/

namespace ApiContract
namespace Resolve

/-- Follows a chain of pointers, checking at most `steps` entries. -/
def followFrom (d : Document) (origin : String) : Nat → Document.ParameterEntry →
    Except ResolveError Document.Parameter
  | 0, _ => .error (.unresolvedRef origin)
  | _ + 1, .inline p => .ok p
  | steps + 1, .ref pointer =>
    match d.parameter? pointer with
    | none => .error (.unresolvedRef pointer)
    | some e => followFrom d origin steps e

/-- The parameter that an entry stands for.  A chain longer than the number of shared parameters
goes in circles. -/
def followParam (d : Document) (e : Document.ParameterEntry) :
    Except ResolveError Document.Parameter :=
  let origin :=
    match e with
    | .ref pointer => pointer
    | .inline p => p.name
  followFrom d origin (d.components.parameters.length + 1) e

/-- Declarations by name and place, a later one taking the place of an earlier one. -/
def mergeParameters (ps : List Document.Parameter) :
    List ((String × String) × Document.Parameter) :=
  ps.foldl (fun merged p => Assoc.put (p.name, p.location) p merged) []

/-- Resolves a declared parameter. -/
def parameter (d : Document) (operationId : String) (p : Document.Parameter) :
    Resolving Param := do
  let location ← orRefuse (.unsupportedParamLocation p.name operationId p.location)
    (Location.ofName? p.location)
  let context := Naming.pascalCase operationId ++ Naming.pascalCase p.name
  let primitive? ← primitiveOf? d p.schema context
  let primitive ← orRefuse (.nonPrimitiveParam p.name operationId) primitive?
  return {
    name := p.name
    location
    property := {
      name := p.name
      type := .primitive primitive
      required := p.required || location == .path } }

/-- Resolves the parameters of an operation, in the order of first mention. -/
def parameters (d : Document) (operationId : String) (item : Document.PathItem)
    (o : Document.Operation) : Resolving (List Param) := do
  let declared ← (item.parameters ++ o.parameters).mapM fun e =>
    (followParam d e : Except ResolveError _)
  (mergeParameters declared).mapM fun (_, p) => parameter d operationId p

/-- The requirement that holds for an operation: its own first one, or without own requirements the
first one of the document. -/
def requirement? (d : Document) (o : Document.Operation) : Option Document.Requirement :=
  ((o.security.or d.security).getD []).head?

/-- The security scheme of a declaration. -/
def schemeOf (name : String) (s : Document.SecurityScheme) : Except ResolveError Security :=
  if s.type = "http" then
    if s.scheme.any (Text.sameIgnoringCase "bearer") then .ok .bearerToken
    else .error (.unsupportedSecurityScheme name "only the bearer http scheme is supported")
  else if s.type = "apiKey" then
    match s.location, s.name with
    | some "header", some header => .ok (.header header)
    | _, _ => .error (.unsupportedSecurityScheme name "api keys must be passed in a header")
  else .error (.unsupportedSecurityScheme name s!"scheme type '{s.type}'")

/-- The security scheme of an operation: the first one that its requirement names. -/
def security (d : Document) (o : Document.Operation) : Except ResolveError (Option Security) :=
  match (requirement? d o).bind List.head? with
  | none => .ok none
  | some (name, _) =>
    match d.components.securitySchemes.lookup name with
    | none => .error (.unknownSecurityScheme name)
    | some s => (schemeOf name s).map some

/-- The parameter that carries the caller's credentials. -/
def securityParam (s : Security) : Param where
  name := s.headerName
  location := .header
  property := { name := s.headerName, type := .primitive .string, required := true }

/-- Whether a declared parameter is the header of a security scheme. -/
def isSecurityHeader (s? : Option Security) (p : Param) : Bool :=
  s?.any fun s => p.location == .header && Text.sameIgnoringCase p.name s.headerName

end Resolve
end ApiContract
