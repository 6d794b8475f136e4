import ApiContract.Code.Source
import ApiContract.Emit.Type

/-!
# The server contract

**Input:** resolved metadata.

**Results:** the arguments of an operation (`contractParams`), in the order of its parameters and
the request body last, with pairwise different identifiers among the parameters; and the module of
the contract, a trait with one method for each operation.
-/

namespace ApiContract
namespace Emit

/-- An argument of a contract method. -/
structure ContractParam where
  /-- Wire name; none for the request body. -/
  wire : Option String
  /-- Identifier. -/
  ident : String
  /-- Type. -/
  type : CodeType
deriving DecidableEq, Inhabited

/-- The identifier of the argument that holds the request body. -/
def requestIdent : String :=
  "request_body"

/-- A type that may be absent unless it is required. -/
def optionalUnless (required : Bool) (t : CodeType) : CodeType :=
  if required then t else .optional t

/-- The scalar type of a parameter. -/
def paramScalar (o : Operation) (p : Param) : Emitting Primitive :=
  match p.property.type with
  | .primitive q => .ok q
  | _ => .error (.paramNotScalar p.name o.operationId)

/-- The arguments for parameters, after those in `done`. -/
def paramsAfter (o : Operation) (done : List ContractParam) :
    List Param → Emitting (List ContractParam)
  | [] => .ok done
  | p :: ps => do
    let scalar ← paramScalar o p
    let ident := Naming.fieldIdent p.name
    if done.any (·.ident == ident) then throw (.paramsCollide o.operationId ident)
    paramsAfter o (done ++ [⟨some p.name, ident, optionalUnless p.required (.scalar scalar)⟩]) ps

/-- The arguments of an operation. -/
def contractParams (o : Operation) : Emitting (List ContractParam) := do
  let params ← paramsAfter o [] o.params
  let body := o.requestBody.map fun b =>
    (⟨none, requestIdent, optionalUnless b.required (.model b.className)⟩ : ContractParam)
  return params ++ body.toList

/-- A method of the contract. -/
structure ContractMethod where
  /-- Documentation. -/
  doc : String
  /-- Identifier. -/
  ident : String
  /-- Arguments. -/
  params : List ContractParam
  /-- Model of the responses. -/
  response : String
deriving Inhabited

/-- The method of an operation. -/
def contractMethod (o : Operation) : Emitting ContractMethod := do
  return {
    doc := o.summary.getD o.operationId ++ "\n\n`" ++ o.method.upperName ++ " " ++ o.path ++ "`"
    ident := Naming.fieldIdent o.operationId
    params := ← contractParams o
    response := o.responseBody.className }

/-- The name of the contract. -/
def contractName (m : Metadata) : String :=
  m.namePrefix ++ "Spec"

/-- The name of the controller. -/
def controllerName (m : Metadata) : String :=
  m.namePrefix ++ "Controller"

/-- The name of the client. -/
def clientName (m : Metadata) : String :=
  m.namePrefix ++ "Client"

/-! ## Printing -/

open Code (flat word braces commas docAttrs)

/-- The code of an argument. -/
def ContractParam.code (p : ContractParam) : Code :=
  word p.ident ++ flat ":" ++ p.type.code .sibling

/-- The arguments of a method behind the receiver. -/
def paramsCode (ps : List ContractParam) : Code :=
  flat "(&self," ++ commas (ps.map (·.code)) ++ flat ")"

/-- The code of a contract method. -/
def ContractMethod.code (m : ContractMethod) : Code :=
  docAttrs m.doc ++ flat "fn" ++ word m.ident ++ paramsCode m.params ++
    flat "-> impl ::std::future::Future<Output = Result<" ++ modelPath .sibling m.response ++
    flat ", ::bindery::ServiceError>,> + Send;"

/-- The import of the models, where there is an operation that names one. -/
def modelsImport (m : Metadata) : Code :=
  if m.operations.isEmpty then [] else flat "use super::models;"

/-- The module of the contract. -/
def contractModule (m : Metadata) : Emitting SourceModule := do
  checkNames m
  let methods ← m.operations.mapM contractMethod
  let doc := "Operations of the `" ++ m.namePrefix ++ "` API.\n\n" ++
    "Implement this trait and serve it with `" ++ controllerName m ++ "`."
  return {
    place := ["server"]
    doc := some "The contract a server implementation fulfils."
    code := modelsImport m ++ docAttrs doc ++ flat "pub trait" ++ word (contractName m) ++
      flat ": Send + Sync + 'static" ++ braces (methods.flatMap (·.code)) }

end Emit
end ApiContract
