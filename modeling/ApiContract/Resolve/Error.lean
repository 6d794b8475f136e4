/-!
# What resolution refuses and warns about

Each constructor is one cause; the wording stands in one function.
-/

namespace ApiContract

/-- Why a document cannot be resolved. -/
inductive ResolveError
  /-- An operation has no `operationId`. -/
  | missingOperationId (method path : String)
  /-- A name has no letter or digit. -/
  | invalidName (name context : String)
  /-- A pointer has no target. -/
  | unresolvedRef (pointer : String)
  /-- A schema has a type of an unknown name. -/
  | unsupportedType (type context : String)
  /-- A schema is composed of others. -/
  | unsupportedComposition (context : String)
  /-- An array schema does not say what it holds. -/
  | missingItems (context : String)
  /-- A requirement names a security scheme that is not declared. -/
  | unknownSecurityScheme (name : String)
  /-- A security scheme cannot be read from a header. -/
  | unsupportedSecurityScheme (name reason : String)
  /-- A parameter is read from an unknown place. -/
  | unsupportedParamLocation (name operationId location : String)
  /-- A parameter is no scalar. -/
  | nonPrimitiveParam (name operationId : String)
  /-- A path template names a parameter that is not declared. -/
  | undeclaredPathParam (name path : String)
  /-- A response header is no scalar. -/
  | nonPrimitiveHeader (name operationId : String)
  /-- A response is declared for something that is no status. -/
  | unsupportedStatus (status operationId : String)
  /-- A response has nothing to take its name from. -/
  | unmappedStatus (status operationId : String)
  /-- A default response has no status in its body. -/
  | defaultWithoutCode (operationId : String)
  /-- Two responses get the same name. -/
  | duplicateVariant (name operationId : String)
deriving DecidableEq, Inhabited

namespace ResolveError

/-- The wording of an error. -/
def message : ResolveError → String
  | missingOperationId method path => s!"Operation {method} {path} has no operationId"
  | invalidName name context => s!"{context} '{name}' does not yield a usable type name"
  | unresolvedRef pointer => s!"Unresolvable reference '{pointer}'"
  | unsupportedType type context => s!"Unsupported schema type '{type}' in {context}"
  | unsupportedComposition context =>
    s!"Schema composition (allOf/anyOf/oneOf) is not supported in {context}"
  | missingItems context => s!"Array schema in {context} has no items"
  | unknownSecurityScheme name =>
    s!"Security scheme '{name}' is not declared in components.securitySchemes"
  | unsupportedSecurityScheme name reason => s!"Security scheme '{name}' is not supported: {reason}"
  | unsupportedParamLocation name operationId location =>
    s!"Parameter '{name}' of '{operationId}' has unsupported location '{location}'"
  | nonPrimitiveParam name operationId =>
    s!"Parameter '{name}' of '{operationId}' must have a primitive schema"
  | undeclaredPathParam name path => s!"Path parameter '{name}' of '{path}' is not declared"
  | nonPrimitiveHeader name operationId =>
    s!"Response header '{name}' of '{operationId}' must have a primitive schema"
  | unsupportedStatus status operationId =>
    s!"Response status '{status}' of '{operationId}' is not a status code"
  | unmappedStatus status operationId =>
    s!"Response {status} of '{operationId}' has no body and no known variant name"
  | defaultWithoutCode operationId =>
    s!"Default response of '{operationId}' must have an object body with a required integer " ++
      "'code' field"
  | duplicateVariant name operationId =>
    s!"Responses of '{operationId}' map to the same variant name '{name}'"

end ResolveError

/-- What is passed over with a warning. -/
inductive Warning
  /-- A media type of a request body is not supported. -/
  | unsupportedRequestMedia (operationId mime : String)
  /-- A content of a request body has no named schema. -/
  | unnamedRequestSchema (operationId mime : String)
  /-- Nothing of a request body is left. -/
  | emptyRequestBody (operationId : String)
  /-- The contents of a response are not supported. -/
  | unsupportedResponseContent (operationId status : String)
  /-- A type name is taken by another schema. -/
  | nameTaken (name : String)
deriving DecidableEq, Inhabited

namespace Warning

/-- The wording of a warning. -/
def message : Warning → String
  | unsupportedRequestMedia .. => "skipping unsupported request media type"
  | unnamedRequestSchema .. => "skipping request body without a $ref schema"
  | emptyRequestBody .. => "request body has no supported content"
  | unsupportedResponseContent .. => "ignoring unsupported response content"
  | nameTaken .. => "type name already generated for a different schema"

/-- What a warning is about, by name. -/
def fields : Warning → List (String × String)
  | unsupportedRequestMedia operationId mime => [("operation_id", operationId), ("mime", mime)]
  | unnamedRequestSchema operationId mime => [("operation_id", operationId), ("mime", mime)]
  | emptyRequestBody operationId => [("operation_id", operationId)]
  | unsupportedResponseContent operationId status =>
    [("operation_id", operationId), ("status", status)]
  | nameTaken name => [("name", name)]

end Warning
end ApiContract
