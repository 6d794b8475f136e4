import ApiContract.Json.Value

/-!
# API documents

The part of an OpenAPI document that resolution reads.  Every map keeps the order of the document
and has each name once.
-/

namespace ApiContract

namespace Document

/-- A schema. -/
structure Schema where
  /-- Pointer to another schema, which then stands for this one. -/
  ref : Option String := none
  /-- The `type` keyword. -/
  type : Option String := none
  /-- The `format` keyword. -/
  format : Option String := none
  /-- Properties of an object. -/
  properties : List (String × Schema) := []
  /-- Names of the required properties. -/
  required : List String := []
  /-- Schema of the items of an array. -/
  items : Option Schema := none
  /-- The `additionalProperties` keyword, whatever it holds. -/
  additionalProperties : Option Json.Value := none
  /-- The `oneOf` keyword. -/
  oneOf : Option (List Schema) := none
  /-- The `anyOf` keyword. -/
  anyOf : Option (List Schema) := none
  /-- The `allOf` keyword. -/
  allOf : Option (List Schema) := none
  /-- Description. -/
  description : Option String := none
deriving Inhabited

namespace Schema

/-- Whether the schema is composed of others. -/
def isComposition (s : Schema) : Bool :=
  s.oneOf.isSome || s.anyOf.isSome || s.allOf.isSome

/-- Whether the schema is a text in binary format. -/
def isBinary (s : Schema) : Bool :=
  s.type == some "string" && s.format == some "binary"

end Schema

/-- General information. -/
structure Info where
  /-- Title of the API. -/
  title : Option String
  /-- Version of the API. -/
  version : Option String
  /-- Description of the API. -/
  description : Option String

/-- A parameter declared in place. -/
structure Parameter where
  /-- Wire name. -/
  name : String
  /-- The `in` keyword. -/
  location : String
  /-- Whether the parameter must be given. -/
  required : Bool
  /-- Schema of its value. -/
  schema : Option Schema
  /-- Description. -/
  description : Option String
deriving Inhabited

/-- An entry of a list of parameters. -/
inductive ParameterEntry
  /-- A pointer to a parameter. -/
  | ref (pointer : String)
  /-- A parameter declared in place. -/
  | inline (parameter : Parameter)
deriving Inhabited

/-- What a body holds in one media type. -/
structure MediaContent where
  /-- Schema of the content. -/
  schema : Option Schema

/-- Contents of a body by media type. -/
abbrev Content := List (String × MediaContent)

/-- A request body. -/
structure RequestBody where
  /-- Whether a request has to carry it. -/
  required : Bool
  /-- Contents by media type. -/
  content : Content

/-- A response header. -/
structure Header where
  /-- Whether a response has to carry it. -/
  required : Bool
  /-- Schema of its value. -/
  schema : Option Schema
  /-- Description. -/
  description : Option String

/-- A response. -/
structure Response where
  /-- Description. -/
  description : Option String
  /-- Headers by name. -/
  headers : List (String × Header)
  /-- Contents by media type. -/
  content : Content

/-- A security requirement: scopes by the name of a scheme. -/
abbrev Requirement := List (String × List String)

/-- An operation. -/
structure Operation where
  /-- The `operationId`. -/
  operationId : Option String := none
  /-- Summary. -/
  summary : Option String := none
  /-- Description. -/
  description : Option String := none
  /-- Parameters of the operation alone. -/
  parameters : List ParameterEntry := []
  /-- Request body. -/
  requestBody : Option RequestBody := none
  /-- Responses by status. -/
  responses : List (String × Response) := []
  /-- Security requirements in place of those of the document. -/
  security : Option (List Requirement) := none
deriving Inhabited

/-- The operations of one path. -/
structure PathItem where
  /-- Operation for `GET`. -/
  get : Option Operation := none
  /-- Operation for `POST`. -/
  post : Option Operation := none
  /-- Operation for `PUT`. -/
  put : Option Operation := none
  /-- Operation for `PATCH`. -/
  patch : Option Operation := none
  /-- Operation for `DELETE`. -/
  delete : Option Operation := none
  /-- Parameters that all operations of the path share. -/
  parameters : List ParameterEntry := []

/-- A declared security scheme. -/
structure SecurityScheme where
  /-- The `type` keyword. -/
  type : String
  /-- Scheme of an `http` entry. -/
  scheme : Option String
  /-- Name of an `apiKey` entry. -/
  name : Option String
  /-- The `in` keyword of an `apiKey` entry. -/
  location : Option String
  /-- Format of a bearer token. -/
  bearerFormat : Option String

/-- Definitions shared by the whole document. -/
structure Components where
  /-- Schemas by name. -/
  schemas : List (String × Schema) := []
  /-- Parameters by name. -/
  parameters : List (String × ParameterEntry) := []
  /-- Security schemes by name. -/
  securitySchemes : List (String × SecurityScheme) := []

end Document

/-- An API document. -/
structure Document where
  /-- Version of the document format. -/
  openapi : Option String := none
  /-- General information. -/
  info : Option Document.Info := none
  /-- Operations by path. -/
  paths : List (String × Document.PathItem) := []
  /-- Shared definitions. -/
  components : Document.Components := {}
  /-- Security requirements of every operation that has none of its own. -/
  security : Option (List Document.Requirement) := none

namespace Document

/-- Where pointers to schemas begin. -/
def schemaRoot : String :=
  "#/components/schemas/"

/-- Where pointers to parameters begin. -/
def parameterRoot : String :=
  "#/components/parameters/"

/-- What follows a given beginning of a text. -/
def after? (root s : String) : Option String :=
  if root.toList.isPrefixOf s.toList then some (String.ofList (s.toList.drop root.length)) else none

/-- The schema that a pointer names. -/
def schema? (d : Document) (pointer : String) : Option Schema :=
  (after? schemaRoot pointer).bind fun name => d.components.schemas.lookup name

/-- The parameter entry that a pointer names. -/
def parameter? (d : Document) (pointer : String) : Option ParameterEntry :=
  (after? parameterRoot pointer).bind fun name => d.components.parameters.lookup name

end Document
end ApiContract
