import ApiContract.Descriptor.Shown

/-!
# What cannot be generated

Each constructor is one cause; the wording stands in one function.
-/

namespace ApiContract

/-- Why code cannot be generated. -/
inductive EmitError
  /-- A name is no identifier. -/
  | notIdentifier (kind name : String)
  /-- A parameter is no scalar. -/
  | paramNotScalar (name operationId : String)
  /-- Two parameters get the same identifier. -/
  | paramsCollide (operationId ident : String)
  /-- A form body is no record with properties. -/
  | formNotRecord (found : Descriptor)
  /-- A chain of pointers has no end. -/
  | unresolvable (type : Descriptor)
  /-- A record in place has no name. -/
  | namelessRecord
  /-- A form that is not multipart has a file. -/
  | fileOutsideMultipart (field : String)
  /-- A form field is neither scalar nor file. -/
  | fieldNotScalar (field : String)
  /-- A default response has no body. -/
  | defaultWithoutBody (operationId : String)
  /-- The headers of a response are no record. -/
  | headersNotRecord (variant : String)
  /-- A response header is no scalar. -/
  | headerNotScalar (name : String)
  /-- No module is the root of the others. -/
  | noRootModule
  /-- Something is wrong with the code that was made. -/
  | invalidCode (cause : String)
deriving DecidableEq, Inhabited

namespace EmitError

/-- The wording of an error. -/
def message : EmitError → String
  | notIdentifier kind name => s!"{kind} name '{name}' is not a valid Rust identifier"
  | paramNotScalar name operationId => s!"parameter '{name}' of '{operationId}' is not a scalar"
  | paramsCollide operationId ident =>
    s!"parameters of '{operationId}' collide on the name '{ident}'"
  | formNotRecord found =>
    "form bodies must be objects with properties, found " ++ found.shown
  | unresolvable type => "unresolvable type reference " ++ type.shown
  | namelessRecord => "inline object with properties has no type name"
  | fileOutsideMultipart field =>
    s!"file field '{field}' is only supported in multipart bodies"
  | fieldNotScalar field => s!"form field '{field}' must be a scalar or a file"
  | defaultWithoutBody operationId => s!"default response of '{operationId}' has no body"
  | headersNotRecord variant => s!"headers of '{variant}' are not an object"
  | headerNotScalar name => s!"header '{name}' is not a scalar"
  | noRootModule => "target has no root module"
  | invalidCode cause => s!"Generated code is invalid: {cause}"

end EmitError

/-- The result of generating code. -/
abbrev Emitting := Except EmitError

end ApiContract
