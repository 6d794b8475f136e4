import ApiContract.Path.Template
import ApiContract.Resolve.Bodies

/-!
# Resolution of documents

**Input:** a document and a text that names the generated code.

**Results:** the operations in document order, for each path in the order of `Method.all`, and the
table of the schemas they name; or the first thing that cannot be expressed.
-/

namespace ApiContract
namespace Resolve

/-- The operations of a path. -/
def methodsOf (item : Document.PathItem) : List (Method × Document.Operation) :=
  [(.get, item.get), (.post, item.post), (.put, item.put), (.patch, item.patch),
    (.delete, item.delete)].filterMap fun (m, o?) => o?.map fun o => (m, o)

/-- A parameter that the path template names and nobody declares. -/
def undeclared? (path : String) (params : List Param) : Option String :=
  (Template.params path).find? fun name =>
    !params.any fun p => p.location == .path && p.name == name

/-- Resolves an operation. -/
def operation (d : Document) (path : String) (method : Method) (item : Document.PathItem)
    (o : Document.Operation) : Resolving Operation := do
  let operationId ← orRefuse (.missingOperationId method.upperName path) o.operationId
  let _ ← typeName operationId "operationId"
  let security? ← (security d o : Except ResolveError _)
  let declared ← parameters d operationId item o
  let params := (security?.map securityParam).toList ++
    declared.filter fun p => !isSecurityHeader security? p
  if let some name := undeclared? path params then refuse (.undeclaredPathParam name path)
  let requestBody ← requestBody d operationId o
  let responseBody ← responseBody d operationId o
  return {
    path
    method
    operationId
    summary := o.summary.or o.description
    params
    requestBody
    responseBody }

/-- All operations of a document, with their paths. -/
def operationsOf (d : Document) :
    List (String × Method × Document.PathItem × Document.Operation) :=
  d.paths.flatMap fun (path, item) => (methodsOf item).map fun (m, o) => (path, m, item, o)

/-- Resolves a document within the state of resolution. -/
def metadata (d : Document) (namePrefix : String) : Resolving Metadata := do
  let operations ← (operationsOf d).mapM fun (path, m, item, o) => operation d path m item o
  return {
    namePrefix := ← typeName namePrefix "Name prefix"
    operations
    refs := (← get).table }

end Resolve

/-- Resolves a document.  The warnings come in the order in which they arose. -/
def Document.resolve (d : Document) (namePrefix : String) :
    Except ResolveError (Metadata × List Warning) :=
  ((Resolve.metadata d namePrefix).run {}).map fun r => (r.1, r.2.warnings)

end ApiContract
