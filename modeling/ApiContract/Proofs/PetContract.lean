import ApiContract.Proofs.PetAnswers
import ApiContract.Proofs.Requests

/-!
# The contract of a pet store

**Input:** the document of a pet store, with eight operations and five schemas.

The schemas are resolved when the first operation that needs them is, so that the state grows three
times (`petsKnown`, `avatarsKnown`, `allKnown`) and stays as it is otherwise.

**Result:** `resolve_contract` gives the operations and the schemas that the document is resolved
to.
-/

namespace ApiContract
namespace PetStore

open Resolve (Progress emptyResponse hasStatus named namesResponse operation operationsOf parameter
  parameters reference requestBody resolve_eq_ok_iff responseHeaders responseVariant
  responseVariants run_arrayOf_eq_ok run_jsonBody_of_named run_mapM_cons run_named_record
  run_operation_of run_parameter_scalar run_parameters_of run_propertiesOf_cons
  run_propertiesOf_nil run_reference_eq_ok run_reference_of_mem_keys run_requestBody_none
  run_requestBody_of run_requestContents_cons run_responseBody_of run_responseHeaders_scalar
  run_responseVariant_bare run_responseVariant_file run_responseVariant_json
  run_responseVariants_cons run_typeOf_array run_typeOf_ref run_typeOf_scalar schema_of_json
  security typeOf)

/-! ## The document -/

section Document

abbrev petPointer : String :=
  "#/components/schemas/Pet"

abbrev petsPointer : String :=
  "#/components/schemas/Pets"

abbrev customPetPointer : String :=
  "#/components/schemas/CustomPet"

abbrev avatarPointer : String :=
  "#/components/schemas/AvatarUpload"

abbrev errorPointer : String :=
  "#/components/schemas/Error"

def textSchema : Document.Schema :=
  { type := some "string" }

def intSchema : Document.Schema :=
  { type := some "integer", format := some "int32" }

def schemas : List (String × Document.Schema) :=
  [("Pet", {
      type := some "object"
      required := ["id", "name"]
      properties := [("id", { type := some "integer", format := some "int64" }),
        ("name", textSchema), ("tag", textSchema)] }),
    ("Pets", { type := some "array", items := some { ref := some petPointer } }),
    ("CustomPet", {
      type := some "object"
      required := ["ints", "strings"]
      properties := [("ints", { type := some "array", items := some intSchema }),
        ("strings", { type := some "array", items := some textSchema })] }),
    ("AvatarUpload", {
      type := some "object"
      required := ["photo", "description"]
      properties := [("photo", { type := some "string", format := some "binary" }),
        ("description", textSchema)] }),
    ("Error", {
      type := some "object"
      required := ["code", "message"]
      properties := [("code", intSchema), ("message", textSchema)] })]

/-- A content that a pointer describes. -/
def contentOf (pointer : String) : Document.MediaContent where
  schema := some { ref := some pointer }

/-- A response with the JSON that a pointer describes. -/
def jsonResponse (pointer : String) : Document.Response where
  description := none
  headers := []
  content := [("application/json", contentOf pointer)]

def petIdParameter : Document.Parameter where
  name := "petId"
  location := "path"
  required := true
  schema := some textSchema
  description := none

def limitParameter : Document.Parameter where
  name := "limit"
  location := "query"
  required := false
  schema := some intSchema
  description := none

def versionParameter : Document.Parameter where
  name := "x-version"
  location := "header"
  required := true
  schema := some intSchema
  description := none

/-- A header with a text. -/
def textHeader (required : Bool) : Document.Header where
  required
  schema := some textSchema
  description := none

def listPetsDeclared : Document.Operation where
  operationId := some "listPets"
  summary := some "List all pets"
  parameters := [.inline limitParameter]
  responses := [
    ("200", { jsonResponse petsPointer with headers := [("x-next", textHeader false)] }),
    ("default", jsonResponse errorPointer)]

def createPetDeclared : Document.Operation where
  operationId := some "createPet"
  summary := some "Create a pet"
  requestBody := some {
    required := true
    content := [("application/json", contentOf petPointer),
      ("application/x-www-form-urlencoded", contentOf petPointer),
      ("application/xml", contentOf petPointer)] }
  responses := [("201", emptyResponse), ("default", jsonResponse errorPointer)]

def showPetDeclared : Document.Operation where
  operationId := some "showPetById"
  summary := some "Info for a specific pet"
  parameters := [.inline petIdParameter, .inline versionParameter]
  responses := [("200", jsonResponse petPointer), ("default", jsonResponse errorPointer)]

def deletePetDeclared : Document.Operation where
  operationId := some "deletePet"
  summary := some "Delete a pet"
  security := some [[("bearerAuth", [])]]
  parameters := [.inline petIdParameter]
  responses := [("204", emptyResponse), ("404", emptyResponse),
    ("default", jsonResponse errorPointer)]

def getAvatarDeclared : Document.Operation where
  operationId := some "getAvatarByPetId"
  summary := some "Download the avatar of a pet"
  parameters := [.inline petIdParameter]
  responses := [("200", {
    description := none
    headers := [("x-avatar-note", textHeader false)]
    content := [("application/octet-stream", {
      schema := some { type := some "string", format := some "binary" } })] })]

def putAvatarDeclared : Document.Operation where
  operationId := some "updateAvatarById"
  summary := some "Replace the avatar of a pet"
  parameters := [.inline petIdParameter]
  requestBody := some {
    required := true
    content := [("multipart/form-data", contentOf avatarPointer)] }
  responses := [("200", emptyResponse), ("default", jsonResponse errorPointer)]

def redirectDeclared : Document.Operation where
  operationId := some "redirectUser"
  summary := some "Redirect to the home page"
  responses := [("302", { emptyResponse with headers := [("Location", textHeader true)] })]

def customPetDeclared : Document.Operation where
  operationId := some "customPet"
  summary := some "Store a pet with list fields"
  requestBody := some {
    required := true
    content := [("application/json", contentOf customPetPointer)] }
  responses := [("200", emptyResponse)]

/-- The document of the pet store. -/
def contract : Document where
  paths := [
    ("/pets", { get := some listPetsDeclared, post := some createPetDeclared }),
    ("/pets/\x7bpetId\x7d", { get := some showPetDeclared, delete := some deletePetDeclared }),
    ("/pets/\x7bpetId\x7d/avatar",
      { get := some getAvatarDeclared, put := some putAvatarDeclared }),
    ("/redirect", { get := some redirectDeclared }),
    ("/custom-pet", { post := some customPetDeclared })]
  components := {
    schemas
    securitySchemes := [("bearerAuth", {
      type := "http"
      scheme := some "bearer"
      name := none
      location := none
      bearerFormat := none })] }

end Document

/-! ## What it is resolved to -/

section Resolved

def petType : Descriptor :=
  .object (some "Pet") [
    { name := "id", type := .primitive .int64, format := some "int64", required := true },
    { name := "name", type := .primitive .string, required := true },
    { name := "tag", type := .primitive .string, required := false }]

def customPetType : Descriptor :=
  .object (some "CustomPet") [
    { name := "ints", type := .array none (.primitive .int), required := true },
    { name := "strings", type := .array none (.primitive .string), required := true }]

def avatarType : Descriptor :=
  .object (some "AvatarUpload") [
    { name := "photo", type := .fileUpload, format := some "binary", required := true },
    { name := "description", type := .primitive .string, required := true }]

def errorType : Descriptor :=
  .object (some "Error") [
    { name := "code", type := .primitive .int, format := some "int32", required := true },
    { name := "message", type := .primitive .string, required := true }]

/-- The state after the first operation, when pets and errors are known. -/
def petsKnown : Progress where
  table := {
    entries := [(petPointer, petType), (petsPointer, .array (some "Pets") (.ref petPointer)),
      (errorPointer, errorType)]
    nodup_keys := by decide }
  entered := [petsPointer, petPointer, errorPointer]

/-- The state when avatars are known too. -/
def avatarsKnown : Progress where
  table := petsKnown.table.insert avatarPointer avatarType
  entered := petsKnown.entered ++ [avatarPointer]

/-- The state after the last operation. -/
def allKnown : Progress where
  table := avatarsKnown.table.insert customPetPointer customPetType
  entered := avatarsKnown.entered ++ [customPetPointer]

/-- A response with a status alone. -/
def bareVariant (name : String) : Variant where
  name
  headers := none
  payload := .none

/-- A response with the JSON that a pointer describes. -/
def jsonVariant (name pointer : String) : Variant where
  name
  headers := none
  payload := .body (.ref pointer) false

def errorVariant : Status × Variant :=
  (.default, jsonVariant "Error" errorPointer)

/-- A record of headers with one text. -/
def headersType (name header : String) (required : Bool) : Descriptor :=
  .object (some name) [{ name := header, type := .primitive .string, required }]

/-- A parameter with a scalar. -/
def scalarParam (name : String) (location : Location) (q : Primitive) (required : Bool) :
    Param where
  name
  location
  property := { name, type := .primitive q, required }

def petIdParam : Param :=
  scalarParam "petId" .path .string true

def listPetsOperation : Operation where
  path := "/pets"
  method := .get
  operationId := "listPets"
  summary := some "List all pets"
  params := [scalarParam "limit" .query .int false]
  requestBody := none
  responseBody := {
    className := "ListPetsResponse"
    variants := [
      (.code 200, { jsonVariant "Pets" petsPointer with
        headers := some (headersType "ListPetsResponsePetsHeaders" "x-next" false) }),
      errorVariant] }

def createPetOperation : Operation where
  path := "/pets"
  method := .post
  operationId := "createPet"
  summary := some "Create a pet"
  params := []
  requestBody := some {
    className := "CreatePetRequest"
    required := true
    content := [(.json, .ref petPointer), (.form, .ref petPointer), (.xml, .ref petPointer)] }
  responseBody := {
    className := "CreatePetResponse"
    variants := [(.code 201, bareVariant "Created"), errorVariant] }

def showPetOperation : Operation where
  path := "/pets/\x7bpetId\x7d"
  method := .get
  operationId := "showPetById"
  summary := some "Info for a specific pet"
  params := [petIdParam, scalarParam "x-version" .header .int true]
  requestBody := none
  responseBody := {
    className := "ShowPetByIdResponse"
    variants := [(.code 200, jsonVariant "Pet" petPointer), errorVariant] }

def deletePetOperation : Operation where
  path := "/pets/\x7bpetId\x7d"
  method := .delete
  operationId := "deletePet"
  summary := some "Delete a pet"
  params := [scalarParam "Authorization" .header .string true, petIdParam]
  requestBody := none
  responseBody := {
    className := "DeletePetResponse"
    variants := [(.code 204, bareVariant "NoContent"), (.code 404, bareVariant "NotFound"),
      errorVariant] }

def getAvatarOperation : Operation where
  path := "/pets/\x7bpetId\x7d/avatar"
  method := .get
  operationId := "getAvatarByPetId"
  summary := some "Download the avatar of a pet"
  params := [petIdParam]
  requestBody := none
  responseBody := {
    className := "GetAvatarByPetIdResponse"
    variants := [(.code 200, {
      name := "File"
      headers := some (headersType "GetAvatarByPetIdResponseFileHeaders" "x-avatar-note" false)
      payload := .body .file true })] }

def putAvatarOperation : Operation where
  path := "/pets/\x7bpetId\x7d/avatar"
  method := .put
  operationId := "updateAvatarById"
  summary := some "Replace the avatar of a pet"
  params := [petIdParam]
  requestBody := some {
    className := "UpdateAvatarByIdRequest"
    required := true
    content := [(.multipart, .ref avatarPointer)] }
  responseBody := {
    className := "UpdateAvatarByIdResponse"
    variants := [(.code 200, bareVariant "Ok"), errorVariant] }

def redirectOperation : Operation where
  path := "/redirect"
  method := .get
  operationId := "redirectUser"
  summary := some "Redirect to the home page"
  params := []
  requestBody := none
  responseBody := {
    className := "RedirectUserResponse"
    variants := [(.code 302, { bareVariant "Redirect" with
      headers := some (headersType "RedirectUserResponseRedirectHeaders" "Location" true) })] }

def customPetOperation : Operation where
  path := "/custom-pet"
  method := .post
  operationId := "customPet"
  summary := some "Store a pet with list fields"
  params := []
  requestBody := some {
    className := "CustomPetRequest"
    required := true
    content := [(.json, .ref customPetPointer)] }
  responseBody := {
    className := "CustomPetResponse"
    variants := [(.code 200, bareVariant "Ok")] }

/-- What the document is resolved to. -/
def metadata : Metadata where
  namePrefix := "Petstore"
  operations := [listPetsOperation, createPetOperation, showPetOperation, deletePetOperation,
    getAvatarOperation, putAvatarOperation, redirectOperation, customPetOperation]
  refs := allKnown.table

/-! ### Schemas -/

section Schemas

theorem run_reference_pets :
    (reference contract [] petsPointer).run {} = .ok (.ref petsPointer, {
      table := (RefTable.empty.insert petPointer petType).insert petsPointer
        (.array (some "Pets") (.ref petPointer))
      entered := [petsPointer, petPointer] }) := by
  have hpet : (reference contract [petsPointer] petPointer).run { entered := [petsPointer] } =
      .ok (.ref petPointer, {
        table := RefTable.empty.insert petPointer petType
        entered := [petsPointer, petPointer] }) := by
    refine (run_reference_eq_ok (by decide) (by decide)).2
      ⟨rfl, _, "Pet", petType, { entered := [petsPointer, petPointer] }, rfl, rfl, ?_, rfl⟩
    refine run_named_record (by decide) (by decide) (by decide) ?_
    refine run_propertiesOf_cons (run_typeOf_scalar rfl rfl rfl) ?_
    refine run_propertiesOf_cons (run_typeOf_scalar rfl rfl rfl) ?_
    exact run_propertiesOf_cons (run_typeOf_scalar rfl rfl rfl) run_propertiesOf_nil
  refine (run_reference_eq_ok (by decide) (by decide)).2
    ⟨rfl, _, "Pets", .array (some "Pets") (.ref petPointer), {
      table := RefTable.empty.insert petPointer petType
      entered := [petsPointer, petPointer] }, rfl, rfl, ?_, rfl⟩
  rw [named, if_neg (by decide), if_pos (by decide)]
  exact run_arrayOf_eq_ok.2 ⟨{ ref := some petPointer }, .ref petPointer, rfl, rfl,
    run_typeOf_ref rfl hpet⟩

theorem run_reference_error :
    (reference contract [] errorPointer).run {
      table := (RefTable.empty.insert petPointer petType).insert petsPointer
        (.array (some "Pets") (.ref petPointer))
      entered := [petsPointer, petPointer] } = .ok (.ref errorPointer, petsKnown) := by
  refine (run_reference_eq_ok (by decide) (by decide)).2 ⟨rfl, _, "Error", errorType, {
    table := (RefTable.empty.insert petPointer petType).insert petsPointer
      (.array (some "Pets") (.ref petPointer))
    entered := [petsPointer, petPointer, errorPointer] }, rfl, rfl, ?_, rfl⟩
  refine run_named_record (by decide) (by decide) (by decide) ?_
  refine run_propertiesOf_cons (run_typeOf_scalar rfl rfl rfl) ?_
  exact run_propertiesOf_cons (run_typeOf_scalar rfl rfl rfl) run_propertiesOf_nil

theorem run_reference_avatar :
    (reference contract [] avatarPointer).run petsKnown = .ok (.ref avatarPointer,
      avatarsKnown) := by
  refine (run_reference_eq_ok (by decide) (by decide)).2 ⟨rfl, _, "AvatarUpload", avatarType,
    { petsKnown with entered := petsKnown.entered ++ [avatarPointer] }, rfl, rfl, ?_, rfl⟩
  refine run_named_record (by decide) (by decide) (by decide) ?_
  refine run_propertiesOf_cons (run_typeOf_scalar rfl rfl rfl) ?_
  exact run_propertiesOf_cons (run_typeOf_scalar rfl rfl rfl) run_propertiesOf_nil

theorem run_reference_customPet :
    (reference contract [] customPetPointer).run avatarsKnown =
      .ok (.ref customPetPointer, allKnown) := by
  have hints : ∀ σ context path, (typeOf contract path
      { type := some "array", items := some intSchema } context).run σ =
      .ok (.array none (.primitive .int), σ) := fun σ context path =>
    run_typeOf_array rfl rfl rfl rfl rfl (run_typeOf_scalar rfl rfl rfl)
  have hstrings : ∀ σ context path, (typeOf contract path
      { type := some "array", items := some textSchema } context).run σ =
      .ok (.array none (.primitive .string), σ) := fun σ context path =>
    run_typeOf_array rfl rfl rfl rfl rfl (run_typeOf_scalar rfl rfl rfl)
  refine (run_reference_eq_ok (by decide) (by decide)).2 ⟨rfl, _, "CustomPet", customPetType,
    { avatarsKnown with entered := avatarsKnown.entered ++ [customPetPointer] }, rfl, rfl, ?_, rfl⟩
  refine run_named_record (by decide) (by decide) (by decide) ?_
  refine run_propertiesOf_cons (hints _ _ _) ?_
  exact run_propertiesOf_cons (hstrings _ _ _) run_propertiesOf_nil

end Schemas

/-! ### Operations -/

section Operations

variable {σ σ' σ'' : Progress} {operationId className : String}

/-- A response with JSON is named after the record or array that the pointer stands for. -/
theorem run_jsonVariant {status : Status} {r : Document.Response} {pointer name : String}
    {headers : Option Descriptor} (hcontent : r.content = [("application/json", contentOf pointer)])
    (hrun : (reference contract [] pointer).run σ = .ok (.ref pointer, σ'))
    (hnames : (σ'.table.resolve? (.ref pointer)).any namesResponse = true)
    (hname : Naming.typeName? (Naming.simpleName pointer) = some name)
    (hheaders : (responseHeaders contract operationId className name r).run σ' =
    .ok (headers, σ')) :
    (responseVariant contract operationId className status r).run σ =
      .ok ({ jsonVariant name pointer with headers }, σ') := by
  exact run_responseVariant_json (schema_of_json hcontent)
    (run_jsonBody_of_named rfl hrun hnames hname) hheaders

/-- The answer to whatever goes wrong comes last. -/
theorem run_responseVariants_error {done : List (Status × Variant)}
    (hrun : (reference contract [] errorPointer).run σ = .ok (.ref errorPointer, σ'))
    (herror : σ'.table.resolve? (.ref errorPointer) = some errorType)
    (hnew : (done.any fun e => e.2.name == "Error") = false) :
    (responseVariants contract operationId className done
      [("default", jsonResponse errorPointer)]).run σ =
      .ok (Assoc.put .default (jsonVariant "Error" errorPointer) done, σ') := by
  refine run_responseVariants_cons rfl (run_jsonVariant rfl hrun ?_ rfl rfl) ?_ hnew rfl
  · rw [herror]
    rfl
  · simp only [hasStatus, jsonVariant, herror]
    rfl

theorem run_petIdParameter :
    (parameter contract operationId petIdParameter).run σ = .ok (petIdParam, σ) :=
  run_parameter_scalar rfl rfl rfl rfl rfl

section Endpoints

variable {item : Document.PathItem} (hitem : item.parameters = [])

include hitem

theorem run_listPets : (operation contract "/pets" .get item listPetsDeclared).run {} =
    .ok (listPetsOperation, petsKnown) := by
  have hparams : (parameters contract "listPets" item listPetsDeclared).run {} =
      .ok (listPetsOperation.params, {}) :=
    run_parameters_of [limitParameter] hitem rfl rfl
      (.cons (run_parameter_scalar rfl rfl rfl rfl rfl) .nil)
  refine run_operation_of rfl rfl rfl hparams rfl rfl (run_requestBody_none rfl) ?_
  refine run_responseBody_of "ListPets" rfl ?_
  refine run_responseVariants_cons rfl (run_jsonVariant rfl run_reference_pets rfl rfl
    (run_responseHeaders_scalar rfl rfl rfl rfl)) rfl rfl ?_
  exact run_responseVariants_error run_reference_error rfl rfl

theorem run_createPet : (operation contract "/pets" .post item createPetDeclared).run petsKnown =
    .ok (createPetOperation, petsKnown) := by
  have hparams : (parameters contract "createPet" item createPetDeclared).run petsKnown =
      .ok ([], petsKnown) := run_parameters_of [] hitem rfl rfl .nil
  have hpet : (reference contract [] petPointer).run petsKnown = .ok (.ref petPointer, petsKnown) :=
    run_reference_of_mem_keys (by decide)
  have hrequest : (requestBody contract "createPet" createPetDeclared).run petsKnown =
      .ok (createPetOperation.requestBody, petsKnown) := by
    refine run_requestBody_of "CreatePet" rfl ?_ rfl rfl
    refine run_requestContents_cons rfl rfl hpet ?_
    refine run_requestContents_cons rfl rfl hpet ?_
    exact run_requestContents_cons rfl rfl hpet rfl
  refine run_operation_of rfl rfl rfl hparams rfl rfl hrequest ?_
  refine run_responseBody_of "CreatePet" rfl ?_
  refine run_responseVariants_cons rfl (run_responseVariant_bare rfl rfl rfl) rfl rfl ?_
  exact run_responseVariants_error (run_reference_of_mem_keys (by decide)) rfl rfl

theorem run_showPet :
    (operation contract "/pets/\x7bpetId\x7d" .get item showPetDeclared).run petsKnown =
      .ok (showPetOperation, petsKnown) := by
  have hparams : (parameters contract "showPetById" item showPetDeclared).run petsKnown =
      .ok (showPetOperation.params, petsKnown) :=
    run_parameters_of [petIdParameter, versionParameter] hitem rfl rfl
      (.cons run_petIdParameter (.cons (run_parameter_scalar rfl rfl rfl rfl rfl) .nil))
  refine run_operation_of rfl rfl rfl hparams rfl rfl (run_requestBody_none rfl) ?_
  refine run_responseBody_of "ShowPetById" rfl ?_
  refine run_responseVariants_cons rfl
    (run_jsonVariant rfl (run_reference_of_mem_keys (by decide)) rfl rfl rfl) rfl rfl ?_
  exact run_responseVariants_error (run_reference_of_mem_keys (by decide)) rfl rfl

theorem run_deletePet :
    (operation contract "/pets/\x7bpetId\x7d" .delete item deletePetDeclared).run petsKnown =
      .ok (deletePetOperation, petsKnown) := by
  have hparams : (parameters contract "deletePet" item deletePetDeclared).run petsKnown =
      .ok ([petIdParam], petsKnown) :=
    run_parameters_of [petIdParameter] hitem rfl rfl (.cons run_petIdParameter .nil)
  have hsecurity : security contract deletePetDeclared = .ok (some .bearerToken) := rfl
  refine run_operation_of rfl rfl hsecurity hparams rfl rfl (run_requestBody_none rfl) ?_
  refine run_responseBody_of "DeletePet" rfl ?_
  refine run_responseVariants_cons rfl (run_responseVariant_bare rfl rfl rfl) rfl rfl ?_
  refine run_responseVariants_cons rfl (run_responseVariant_bare rfl rfl rfl) rfl rfl ?_
  exact run_responseVariants_error (run_reference_of_mem_keys (by decide)) rfl rfl

theorem run_getAvatar :
    (operation contract "/pets/\x7bpetId\x7d/avatar" .get item getAvatarDeclared).run petsKnown =
      .ok (getAvatarOperation, petsKnown) := by
  have hparams : (parameters contract "getAvatarByPetId" item getAvatarDeclared).run petsKnown =
      .ok (getAvatarOperation.params, petsKnown) :=
    run_parameters_of [petIdParameter] hitem rfl rfl (.cons run_petIdParameter .nil)
  refine run_operation_of rfl rfl rfl hparams rfl rfl (run_requestBody_none rfl) ?_
  refine run_responseBody_of "GetAvatarByPetId" rfl ?_
  refine run_responseVariants_cons rfl ?_ rfl rfl rfl
  exact run_responseVariant_file rfl rfl (run_responseHeaders_scalar rfl rfl rfl rfl)

theorem run_putAvatar :
    (operation contract "/pets/\x7bpetId\x7d/avatar" .put item putAvatarDeclared).run petsKnown =
      .ok (putAvatarOperation, avatarsKnown) := by
  have hparams : (parameters contract "updateAvatarById" item putAvatarDeclared).run petsKnown =
      .ok (putAvatarOperation.params, petsKnown) :=
    run_parameters_of [petIdParameter] hitem rfl rfl (.cons run_petIdParameter .nil)
  have hrequest : (requestBody contract "updateAvatarById" putAvatarDeclared).run petsKnown =
      .ok (putAvatarOperation.requestBody, avatarsKnown) := by
    refine run_requestBody_of "UpdateAvatarById" rfl ?_ rfl rfl
    exact run_requestContents_cons rfl rfl run_reference_avatar rfl
  refine run_operation_of rfl rfl rfl hparams rfl rfl hrequest ?_
  refine run_responseBody_of "UpdateAvatarById" rfl ?_
  refine run_responseVariants_cons rfl (run_responseVariant_bare rfl rfl rfl) rfl rfl ?_
  exact run_responseVariants_error (run_reference_of_mem_keys (by decide)) rfl rfl

theorem run_redirect :
    (operation contract "/redirect" .get item redirectDeclared).run avatarsKnown =
    .ok (redirectOperation, avatarsKnown) := by
  have hparams : (parameters contract "redirectUser" item redirectDeclared).run avatarsKnown =
      .ok ([], avatarsKnown) := run_parameters_of [] hitem rfl rfl .nil
  refine run_operation_of rfl rfl rfl hparams rfl rfl (run_requestBody_none rfl) ?_
  refine run_responseBody_of "RedirectUser" rfl ?_
  refine run_responseVariants_cons rfl ?_ rfl rfl rfl
  exact run_responseVariant_bare rfl rfl (run_responseHeaders_scalar rfl rfl rfl rfl)

theorem run_customPet :
    (operation contract "/custom-pet" .post item customPetDeclared).run avatarsKnown =
      .ok (customPetOperation, allKnown) := by
  have hparams : (parameters contract "customPet" item customPetDeclared).run avatarsKnown =
      .ok ([], avatarsKnown) := run_parameters_of [] hitem rfl rfl .nil
  have hrequest : (requestBody contract "customPet" customPetDeclared).run avatarsKnown =
      .ok (customPetOperation.requestBody, allKnown) := by
    refine run_requestBody_of "CustomPet" rfl ?_ rfl rfl
    exact run_requestContents_cons rfl rfl run_reference_customPet rfl
  refine run_operation_of rfl rfl rfl hparams rfl rfl hrequest ?_
  refine run_responseBody_of "CustomPet" rfl ?_
  exact run_responseVariants_cons rfl (run_responseVariant_bare rfl rfl rfl) rfl rfl rfl

end Endpoints

/-- The document is resolved, and nothing is warned of. -/
theorem resolve_contract : contract.resolve "Petstore" = .ok (metadata, []) := by
  refine resolve_eq_ok_iff.2 ⟨"Petstore", metadata.operations, allKnown, rfl, ?_, rfl, rfl⟩
  have hes : operationsOf contract = [("/pets", .get, _, listPetsDeclared),
    ("/pets", .post, _, createPetDeclared), ("/pets/\x7bpetId\x7d", .get, _, showPetDeclared),
    ("/pets/\x7bpetId\x7d", .delete, _, deletePetDeclared),
    ("/pets/\x7bpetId\x7d/avatar", .get, _, getAvatarDeclared),
    ("/pets/\x7bpetId\x7d/avatar", .put, _, putAvatarDeclared),
    ("/redirect", .get, _, redirectDeclared), ("/custom-pet", .post, _, customPetDeclared)] := rfl
  rw [hes]
  refine run_mapM_cons (run_listPets rfl) ?_
  refine run_mapM_cons (run_createPet rfl) ?_
  refine run_mapM_cons (run_showPet rfl) ?_
  refine run_mapM_cons (run_deletePet rfl) ?_
  refine run_mapM_cons (run_getAvatar rfl) ?_
  refine run_mapM_cons (run_putAvatar rfl) ?_
  refine run_mapM_cons (run_redirect rfl) ?_
  exact run_mapM_cons (run_customPet rfl) rfl

end Operations

end Resolved

end PetStore
end ApiContract
