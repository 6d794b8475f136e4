import ApiContract.Code.Source
import ApiContract.Emit.Type
import ApiContract.Resolve.Error

/-!
# Models

**Input:** resolved metadata.

**Results:** one model for every type name: a record, an open record, a sum, or the fixed record of
received files.  A name belongs to the first descriptor that claims it; a different descriptor that
claims it later is passed over with a warning.  Each model is a module of its own, and the module
above them exports them all.
-/

namespace ApiContract
namespace Emit

/-- A field of a record. -/
structure Field where
  /-- Identifier. -/
  ident : String
  /-- Wire name. -/
  wire : String
  /-- Type. -/
  type : CodeType
  /-- Whether it must be present. -/
  required : Bool
  /-- The schema's `format`. -/
  format : Option String
deriving DecidableEq, Inhabited

/-- A variant of a sum. -/
structure SumVariant where
  /-- Name. -/
  tag : String
  /-- What it carries. -/
  members : List (String × CodeType)
deriving DecidableEq, Inhabited

/-- The shape of a model. -/
inductive ModelShape
  /-- The record of received files. -/
  | upload
  /-- A record without declared fields. -/
  | openRecord
  | record (fields : List Field)
  | sum (variants : List SumVariant)
deriving DecidableEq, Inhabited

/-- A model. -/
structure Model where
  /-- Type name. -/
  name : String
  /-- The descriptor that it was made from; none for the record of received files. -/
  descriptor : Option Descriptor
  /-- Shape. -/
  shape : ModelShape
deriving Inhabited

/-! ## Shapes -/

/-- The field of a property. -/
def fieldOf (refs : RefTable) (p : Property) : Emitting Field := do
  return {
    ident := Naming.fieldIdent p.name
    wire := p.name
    type := ← fieldType refs p
    required := p.required
    format := p.format }

/-- The shape of a record. -/
def recordShape (refs : RefTable) (ps : List Property) : Emitting ModelShape :=
  if ps.isEmpty then .ok .openRecord else (ps.mapM (fieldOf refs)).map .record

/-- The shape of a named array: a record with one field that has the name of the type. -/
def wrapperShape (refs : RefTable) (name : String) (element : Descriptor) : Emitting ModelShape :=
  recordShape refs
    [{ name := Naming.decapitalize name, type := .array none element, required := true }]

/-- A member of a sum variant. -/
def memberOf (refs : RefTable) (t : Descriptor) : Emitting (String × CodeType) := do
  return (memberIdent t, ← typeOf refs t)

/-- The shape of a sum. -/
def sumShape (refs : RefTable) (vs : List (String × List Descriptor)) : Emitting ModelShape :=
  (vs.mapM fun (v : String × List Descriptor) => do
    return ({ tag := v.1, members := ← v.2.mapM (memberOf refs) } : SumVariant)).map .sum

/-! ## Collection -/

/-- Models collected so far, and warnings. -/
structure Collection where
  /-- Models in the order of their first claim. -/
  models : List Model
  /-- Warnings so far. -/
  warnings : List Warning := []
deriving Inhabited

/-- A step of collection.  Warnings stay when it fails. -/
abbrev Collecting := ExceptT EmitError (StateM Collection)

/-- Claims a name for a descriptor, and adds the model if the name is free.  Variants are looked up
by their tags, so their order makes no other descriptor. -/
def claim (name : String) (t : Descriptor) (shape : Emitting ModelShape) : Collecting Unit := do
  match (← get).models.find? (·.name == name) with
  | some m =>
    if !m.descriptor.any (·.alike t) then
      modify fun c => { c with warnings := c.warnings ++ [.nameTaken name] }
  | none =>
    let shape ← ExceptT.mk (pure shape)
    modify fun c => { c with models := c.models ++ [⟨name, some t, shape⟩] }

mutual

/-- Collects the models of a descriptor, outer ones first. -/
def visit (refs : RefTable) : Descriptor → Collecting Unit
  | .array name? e => do
    if let some name := name? then claim name (.array name? e) (wrapperShape refs name e)
    visit refs e
  | .object name? ps => do
    if let some name := name? then claim name (.object name? ps) (recordShape refs ps)
    visitProperties refs ps
  | .oneOf name vs => do
    claim name (.oneOf name vs) (sumShape refs vs)
    visitVariants refs vs
  | _ => pure ()

/-- Collects the models of properties. -/
def visitProperties (refs : RefTable) : List (PropertyOf Descriptor) → Collecting Unit
  | [] => pure ()
  | ⟨_, t, _, _⟩ :: ps => do
    visit refs t
    visitProperties refs ps

/-- Collects the models of variants. -/
def visitVariants (refs : RefTable) : List (String × List Descriptor) → Collecting Unit
  | [] => pure ()
  | (_, ms) :: vs => do
    visitMembers refs ms
    visitVariants refs vs

/-- Collects the models of members. -/
def visitMembers (refs : RefTable) : List Descriptor → Collecting Unit
  | [] => pure ()
  | m :: ms => do
    visit refs m
    visitMembers refs ms

end

/-- The models of resolved metadata, and the warnings on the way. -/
def models (m : Metadata) : Emitting (List Model) × List Warning :=
  let start : Collection := { models := [⟨uploadModel, none, .upload⟩] }
  let collect : Collecting Unit := do
    ExceptT.mk (pure (checkNames m))
    (roots m).forM (visit m.refs)
  let (result, c) := collect.run.run start
  (result.map fun _ => c.models, c.warnings)

/-! ## Printing -/

open Code (flat word literal braces brackets parens docAttrs)

/-- The attribute that renames a field on the wire. -/
def fieldAttr (f : Field) : Code :=
  let rename := flat "rename =" ++ literal f.wire
  let args :=
    if f.required then rename
    else rename ++ flat ", default, skip_serializing_if =" ++ literal "Option::is_none"
  flat "#" ++ brackets (flat "serde" ++ parens args)

/-- The code of a field. -/
def Field.code (f : Field) : Code :=
  (f.format.map fun format => docAttrs ("Format: `" ++ format ++ "`")).getD [] ++ fieldAttr f ++
    flat "pub" ++ word f.ident ++ flat ":" ++ f.type.code .models ++ flat ","

/-- The code of a variant. -/
def SumVariant.code (v : SumVariant) : Code :=
  if v.members.isEmpty then word v.tag ++ flat ","
  else
    word v.tag ++
      braces (v.members.flatMap fun (ident, t) =>
        word ident ++ flat ":" ++ t.code .models ++ flat ",") ++ flat ","

/-- The head of a record that can be written and read. -/
def recordHead (ident : String) (derived : String) : Code :=
  flat "#" ++ brackets (flat "derive" ++ parens (flat derived)) ++ flat "pub struct" ++ word ident

/-- The code of the record of received files. -/
def uploadCode (ident : String) : Code :=
  let construct := flat "Self" ++ braces
    (flat "name: upload.name, file: upload.path, content_type: upload.content_type,")
  docAttrs ("A file received as one part of a multipart request.\n\n" ++
      "`file` is deleted once the request that produced it completes.") ++
    recordHead ident "Debug, Clone, PartialEq, ::serde::Serialize, ::serde::Deserialize" ++
    braces (flat "pub name: String, pub file: ::std::path::PathBuf, pub content_type: String,") ++
    flat "impl From<::bindery::UploadedFile> for" ++ word ident ++
    braces (flat "fn from(upload: ::bindery::UploadedFile) -> Self" ++ braces construct)

/-- The code of a model. -/
def Model.code (m : Model) : Code :=
  match m.shape with
  | .upload => uploadCode m.name
  | .openRecord =>
    recordHead m.name
      "Debug, Clone, Default, PartialEq, ::serde::Serialize, ::serde::Deserialize" ++
      braces (flat "#[serde(flatten)] pub additional_properties:" ++
        CodeType.code .models .dynamicMap ++ flat ",")
  | .record fields =>
    recordHead m.name "Debug, Clone, PartialEq, ::serde::Serialize, ::serde::Deserialize" ++
      braces (fields.flatMap (·.code))
  | .sum variants =>
    flat "#[derive(Debug, Clone, PartialEq)] pub enum" ++ word m.name ++
      braces (variants.flatMap (·.code))

/-- The module that holds the modules of models. -/
def modelsPlace : String :=
  "models"

/-- The module of a model. -/
def Model.sourceModule (m : Model) : SourceModule where
  place := [modelsPlace, Naming.fieldIdent m.name]
  code := m.code

/-- The line that exports a model. -/
def Model.exportLine (m : Model) : Code :=
  flat "pub use self::" ++ word (Naming.fieldIdent m.name) ++ flat "::" ++ word m.name ++ flat ";"

/-- The module that exports models. -/
def exportModule (ms : List Model) : SourceModule where
  place := [modelsPlace]
  code := ms.flatMap (·.exportLine)
  doc := some "Data types exchanged by the operations."

/-- The modules of all models, the one that exports them first. -/
def modelModules (m : Metadata) : Emitting (List SourceModule) × List Warning :=
  let (result, warnings) := models m
  (result.map fun ms => exportModule ms :: ms.map (·.sourceModule), warnings)

end Emit
end ApiContract
