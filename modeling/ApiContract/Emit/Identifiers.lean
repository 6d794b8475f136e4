import ApiContract.Emit.Client
import ApiContract.Emit.Models

/-!
# The identifiers that emitters make

**Input:** resolved metadata.

Everything that is named in generated code is made an identifier before it is printed.  What makes
it takes any text, and breaks down if the text is no identifier; nobody is told which name it was.
So an emitter can end in a third way, besides with code or with an error.

**Results:** the emitters step by step, each with the identifiers that it makes in their order
(`Making`), those before an error included; and `Making.run?`, what an emitter ends with, which is
nothing if it breaks down.
-/

namespace ApiContract
namespace Emit

/-- A step of an emitter. -/
structure Making (α : Type) where
  /-- The identifiers that it makes. -/
  made : List String
  /-- What it ends with. -/
  result : Emitting α

namespace Making

variable {α : Type}

/-- Steps one after another; the second one is only taken if the first one does not fail. -/
instance : Monad Making where
  pure a := ⟨[], .ok a⟩
  bind x f :=
    match x.result with
    | .ok a => ⟨x.made ++ (f a).made, (f a).result⟩
    | .error e => ⟨x.made, .error e⟩

/-- A step that makes no identifiers. -/
def quiet (r : Emitting α) : Making α :=
  ⟨[], r⟩

/-- Makes an identifier of a text. -/
def ident (s : String) : Making String :=
  ⟨[s], .ok s⟩

/-- What an emitter ends with, given which texts are taken for identifiers; nothing if another text
is made one. -/
def run? (accepts : String → Bool) (x : Making α) : Option (Emitting α) :=
  if x.made.all accepts then some x.result else none

end Making

open Making (quiet ident)

/-- The texts that are taken for identifiers.  Characters beyond ASCII count as letters. -/
def isIdentText (s : String) : Bool :=
  let continues (c : Char) : Bool := Naming.isIdentChar c || c.toNat ≥ 128
  match s.toList with
  | [] => false
  | c :: rest => continues c && !c.isDigit && rest.all continues

/-! ## Types -/

/-- A type, with the identifiers of the models that it is made of. -/
def makeType (r : Emitting CodeType) : Making CodeType :=
  match r with
  | .ok t => ⟨t.models, .ok t⟩
  | .error e => ⟨[], .error e⟩

/-! ## The contract -/

/-- The arguments for parameters, after those in `done`. -/
def makeParamsAfter (o : Operation) (done : List ContractParam) :
    List Param → Making (List ContractParam)
  | [] => return done
  | p :: ps => do
    let scalar ← quiet (paramScalar o p)
    let name ← ident (Naming.fieldIdent p.name)
    if done.any (·.ident == name) then quiet (.error (.paramsCollide o.operationId name))
    else
      makeParamsAfter o (done ++ [⟨some p.name, name, optionalUnless p.required (.scalar scalar)⟩])
        ps

/-- The arguments of an operation. -/
def makeContractParams (o : Operation) : Making (List ContractParam) := do
  let params ← makeParamsAfter o [] o.params
  match o.requestBody with
  | none => return params
  | some b =>
    let model ← ident b.className
    let request ← ident requestIdent
    return params ++ [⟨none, request, optionalUnless b.required (.model model)⟩]

/-- The method of an operation. -/
def makeContractMethod (o : Operation) : Making ContractMethod := do
  let name ← ident (Naming.fieldIdent o.operationId)
  let response ← ident o.responseBody.className
  return {
    doc := o.summary.getD o.operationId ++ "\n\n`" ++ o.method.upperName ++ " " ++ o.path ++ "`"
    ident := name
    params := ← makeContractParams o
    response }

/-- The module of the contract. -/
def makeContract (m : Metadata) : Making SourceModule := do
  quiet (checkNames m)
  let _ ← ident (contractName m)
  let _ ← m.operations.mapM makeContractMethod
  quiet (contractModule m)

/-! ## Handlers -/

/-- How a declared parameter is read. -/
def makeParamRead (o : Operation) (p : Param) : Making ParamRead := do
  let binding ← ident (localIdent (Naming.fieldIdent p.name))
  return {
    binding
    wire := p.name
    location := p.location
    required := p.required
    scalar := ← quiet (paramScalar o p) }

/-- How the form field of a property is read. -/
def makeFieldRead (refs : RefTable) (multipart : Bool) (p : Property) : Making FieldRead := do
  let name ← ident (Naming.fieldIdent p.name)
  let _ ← ident ("field_" ++ name)
  quiet (fieldRead refs multipart p)

/-- How a form body is read. -/
def makeFormRead (refs : RefTable) (multipart : Bool) (t : Descriptor) : Making FormRead := do
  let (name, ps) ← quiet (formRecord refs t)
  let record ← ident name
  return { record, fields := ← ps.mapM (makeFieldRead refs multipart) }

/-- How a body of one media type is read. -/
def makeBodyArm (refs : RefTable) (m : Media) (t : Descriptor) : Making BodyArm := do
  let _ ← ident m.tag
  let member ← ident (memberIdent t)
  let read ←
    match m with
    | .json => pure BodyRead.json
    | .xml => pure .xml
    | .form => BodyRead.form <$> makeFormRead refs false t
    | .multipart => BodyRead.multipart <$> makeFormRead refs true t
  return { media := m, member, read }

/-- How a request body is read. -/
def makeBodyDispatch (refs : RefTable) (b : RequestBody) : Making BodyDispatch := do
  let className ← ident b.className
  return {
    className
    required := b.required
    arms := ← b.content.mapM fun (m, t) => makeBodyArm refs m t }

/-- The properties of a record of headers, with the identifiers of its fields. -/
def makeHeaderWrites (v : Variant) (h : Descriptor) : Making (List HeaderWrite) := do
  let _ ← ident (memberIdent h)
  let ps ← quiet (headerProperties v h)
  ps.mapM fun p => do
    let field ← ident (Naming.fieldIdent p.name)
    return ⟨p.name, field, p.required⟩

/-- How a response is written. -/
def makeDispatchArm (o : Operation) (s : Status) (v : Variant) : Making DispatchArm := do
  let tag ← ident v.name
  let bindings ← v.members.mapM fun t => ident (memberIdent t)
  let status ← quiet (statusSource o s v)
  let headers ←
    match v.headers with
    | none => pure []
    | some h => makeHeaderWrites v h
  return {
    tag
    bindings
    status
    headersBinding := (v.headers.map memberIdent).getD ""
    headers
    body :=
      match v.payload with
      | .none => .empty
      | .body t true => .file (memberIdent t)
      | .body t false => .json (memberIdent t) }

/-- The handler of an operation. -/
def makeHandler (refs : RefTable) (o : Operation) : Making Handler := do
  let name ← ident (Naming.fieldIdent o.operationId)
  let params ← makeContractParams o
  let reads ← o.params.mapM (makeParamRead o)
  let arguments ← params.mapM fun p => ident (argumentOf p)
  let body ←
    match o.requestBody with
    | none => pure none
    | some b => some <$> makeBodyDispatch refs b
  let response ← ident o.responseBody.className
  let arms ← o.responseBody.variants.mapM fun (s, v) => makeDispatchArm o s v
  return {
    method := o.method
    path := o.path
    ident := name
    reads
    body
    arguments
    response
    arms
    cleansUp := body.any (·.storesFiles) || o.responseBody.variants.any (·.2.isFile) }

/-- The module of the handlers. -/
def makeController (m : Metadata) : Making SourceModule := do
  quiet (checkNames m)
  let _ ← ident (contractName m)
  let _ ← ident (controllerName m)
  let _ ← m.operations.mapM (makeHandler m.refs)
  let _ ← m.operations.mapM fun o => ident o.method.name
  quiet (controllerModule m)

/-! ## Clients -/

/-- How a body of one media type is sent. -/
def makeEncodeArm (refs : RefTable) (m : Media) (t : Descriptor) : Making EncodeArm := do
  let _ ← ident m.tag
  let member ← ident (memberIdent t)
  let send ←
    match m with
    | .json => pure BodySend.json
    | .form => pure .form
    | .xml => pure .unsupported
    | .multipart => do
      let (name, ps) ← quiet (formRecord refs t)
      let _ ← ident name
      let parts ← ps.mapM fun p => do
        let field ← ident (Naming.fieldIdent p.name)
        return (⟨field, p.name, p.type.isFileUpload, p.required⟩ : SentPart)
      pure (.multipart parts)
  return { media := m, member, send }

/-- How a request body is sent. -/
def makeBodyEncode (refs : RefTable) (b : RequestBody) : Making BodyEncode := do
  let className ← ident b.className
  return {
    className
    required := b.required
    arms := ← b.content.mapM fun (m, t) => makeEncodeArm refs m t }

/-- How a header is read. -/
def makeHeaderRead (p : Property) : Making HeaderRead := do
  let _ ← ident (Naming.fieldIdent p.name)
  quiet (headerRead p)

/-- How the headers of a response are read. -/
def makeHeaderReads (refs : RefTable) (v : Variant) (h : Descriptor) :
    Making (String × CodeType × List HeaderRead) := do
  let binding ← ident (memberIdent h)
  let type ← makeType (typeOf refs h)
  let properties ← quiet (headerProperties v h)
  return (binding, type, ← properties.mapM makeHeaderRead)

/-- How the body of a response is read. -/
def makeResponseRead (refs : RefTable) : Payload → Making ResponseRead
  | .none => return .empty
  | .body t true => do
    let binding ← ident (memberIdent t)
    return .file binding
  | .body t false => do
    let binding ← ident (memberIdent t)
    return .json binding (← makeType (typeOf refs t))

/-- How a response becomes a variant. -/
def makeDecodeArm (refs : RefTable) (s : Status) (v : Variant) : Making DecodeArm := do
  let tag ← ident v.name
  let headers ←
    match v.headers with
    | none => pure none
    | some h => some <$> makeHeaderReads refs v h
  let body ← makeResponseRead refs v.payload
  let bindings ← v.members.mapM fun t => ident (memberIdent t)
  let status :=
    match s with
    | .code n => some n
    | .default => none
  return { status, tag, bindings, headers, body }

/-- The client method of an operation. -/
def makeClientMethod (refs : RefTable) (o : Operation) : Making ClientMethod := do
  let name ← ident (Naming.fieldIdent o.operationId)
  let _ ← ident o.method.name
  let response ← ident o.responseBody.className
  let params ← makeContractParams o
  let body ←
    match o.requestBody with
    | none => pure none
    | some b => some <$> makeBodyEncode refs b
  let arms ← o.responseBody.variants.mapM fun (s, v) => makeDecodeArm refs s v
  return {
    doc := o.summary.getD o.operationId
    method := o.method
    path := o.path
    ident := name
    params
    sent := o.params.map fun p => ⟨Naming.fieldIdent p.name, p.name, p.location, p.required⟩
    body
    response
    arms }

/-- The module of the client. -/
def makeClient (m : Metadata) : Making SourceModule := do
  quiet (checkNames m)
  let _ ← ident (clientName m)
  let _ ← m.operations.mapM (makeClientMethod m.refs)
  quiet (clientModule m)

/-! ## Models -/

/-- The field of a property. -/
def makeField (refs : RefTable) (p : Property) : Making Field := do
  let name ← ident (Naming.fieldIdent p.name)
  return {
    ident := name
    wire := p.name
    type := ← makeType (fieldType refs p)
    required := p.required
    format := p.format }

/-- The shape of a record. -/
def makeRecord (refs : RefTable) (name : String) (ps : List Property) : Making ModelShape := do
  let _ ← ident name
  if ps.isEmpty then return .openRecord
  else ModelShape.record <$> ps.mapM (makeField refs)

/-- A member of a sum variant. -/
def makeMember (refs : RefTable) (t : Descriptor) : Making (String × CodeType) := do
  let name ← ident (memberIdent t)
  return (name, ← makeType (typeOf refs t))

/-- A variant of a sum. -/
def makeSumVariant (refs : RefTable) (v : String × List Descriptor) : Making SumVariant := do
  let tag ← ident v.1
  return { tag, members := ← v.2.mapM (makeMember refs) }

/-- The shape of a sum. -/
def makeSum (refs : RefTable) (name : String) (vs : List (String × List Descriptor)) :
    Making ModelShape := do
  let _ ← ident name
  ModelShape.sum <$> vs.mapM (makeSumVariant refs)

/-- The name and the shape of the model of a descriptor, if it has one. -/
def makeModel? (refs : RefTable) : Descriptor → Option (String × Making ModelShape)
  | .array (some name) e =>
    some (name, makeRecord refs name
      [{ name := Naming.decapitalize name, type := .array none e, required := true }])
  | .object (some name) ps => some (name, makeRecord refs name ps)
  | .oneOf name vs => some (name, makeSum refs name vs)
  | _ => none

/-- The models of descriptors, each for the first one with its name, after those in `done`. -/
def makeModelsAfter (refs : RefTable) (done : List Model) : List Descriptor → Making (List Model)
  | [] => return done
  | t :: ts =>
    match makeModel? refs t with
    | none => makeModelsAfter refs done ts
    | some (name, shape) =>
      if done.any (·.name == name) then makeModelsAfter refs done ts
      else do
        let s ← shape
        makeModelsAfter refs (done ++ [⟨name, some t, s⟩]) ts

/-- The modules of all models. -/
def makeModels (m : Metadata) : Making (List SourceModule) := do
  quiet (checkNames m)
  let upload ← ident uploadModel
  let models ← makeModelsAfter m.refs [⟨upload, none, .upload⟩] ((roots m).flatMap Descriptor.parts)
  let _ ← models.mapM fun r => do
    let _ ← ident (Naming.fieldIdent r.name)
    ident r.name
  quiet (modelModules m).1

end Emit
end ApiContract
