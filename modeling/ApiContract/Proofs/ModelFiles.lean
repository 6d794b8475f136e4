import ApiContract.Proofs.ModulePaths
import ApiContract.Proofs.Words
import ApiContract.Proofs.RequestDispatch

/-!
# The files of models

**Input:** resolved metadata for which models can be generated.

A model has its own name, but its module has an identifier made of the words of the name, and this
is the only name its file has.  So two models whose names have the same words share a module and a
file.

**Results:**

* `Assembled.exists_of_ofMetadata`: the modules of a target, in the order in which they are written;
* `Assembled.read_model`: the last model with some words is the one that is found in their file;
* `model_files`: the modules and files of models are different exactly if no two models have names
  with the same words; the file of a model holds the last one with its words;
* `models_share_file`: a document with two such models.
-/

namespace ApiContract

namespace Emit

open Naming (fieldIdent fieldIdent_eq_iff identWords isKeyword_fieldIdent mem_fieldIdent
  toList_fieldIdent_ne_nil)
open ModuleTree (Named Plain read_of_modules nodup_paths_iff)

/-! ## Models with the same words -/

/-- No two models have names with the same words. -/
def Apart (ms : List Model) : Prop :=
  ms.Pairwise fun a b => identWords a.name ≠ identWords b.name

instance (ms : List Model) : Decidable (Apart ms) :=
  inferInstanceAs (Decidable (ms.Pairwise _))

/-- The last model whose name has the words of that of a model. -/
def lastAlike (ms : List Model) (a : Model) : Option Model :=
  ms.reverse.find? fun b => identWords b.name == identWords a.name

section Alike

variable {ms : List Model} {a b : Model}

theorem nodup_idents_iff : (ms.map fun a => fieldIdent a.name).Nodup ↔ Apart ms := by
  rw [List.Nodup, List.pairwise_map, Apart]
  simp only [ne_eq, fieldIdent_eq_iff]

theorem lastAlike_eq_some (h : lastAlike ms a = some b) : identWords b.name = identWords a.name ∧
    ∃ first rest, ms = first ++ b :: rest ∧ ∀ c ∈ rest, identWords c.name ≠ identWords a.name := by
  obtain ⟨hb, before, after, hms, hbefore⟩ := List.find?_eq_some_iff_append.1 h
  refine ⟨beq_iff_eq.1 hb, after.reverse, before.reverse, ?_, fun c hc => ?_⟩
  · rw [← List.reverse_reverse ms, hms]
    simp
  · simpa using hbefore c (List.mem_reverse.1 hc)

theorem exists_lastAlike (ha : a ∈ ms) : ∃ b, lastAlike ms a = some b := by
  refine Option.isSome_iff_exists.1 (List.find?_isSome.2 ⟨a, List.mem_reverse.2 ha, ?_⟩)
  exact beq_self_eq_true _

/-- Every model is the last one with its words exactly if no two have the same. -/
theorem lastAlike_iff_apart (hnodup : (ms.map (·.name)).Nodup) :
    (∀ a ∈ ms, lastAlike ms a = some a) ↔ Apart ms := by
  constructor
  · intro hlast
    rw [List.Nodup, List.pairwise_map] at hnodup
    refine hnodup.imp_of_mem fun {a b} ha hb hne hwords => hne ?_
    have hsame : lastAlike ms a = lastAlike ms b := by rw [lastAlike, lastAlike, hwords]
    rw [hlast a ha, hlast b hb] at hsame
    rw [Option.some.inj hsame]
  · intro hapart a ha
    obtain ⟨b, hb⟩ := exists_lastAlike ha
    obtain ⟨hwords, -⟩ := lastAlike_eq_some hb
    have hbmem : b ∈ ms := List.mem_reverse.1 (List.mem_of_find?_eq_some hb)
    rw [hb, List.inj_on_of_nodup_map (nodup_idents_iff.2 hapart) hbmem ha
      (fieldIdent_eq_iff.2 hwords)]

end Alike

/-- The emitted modules have different places exactly if no two models have names with the same
words. -/
theorem nodup_modules_iff (ms : List Model) :
    ((exportModule ms :: ms.map (·.sourceModule)).map (·.place)).Nodup ↔ Apart ms := by
  have hplaces : (exportModule ms :: ms.map (·.sourceModule)).map (·.place) =
      [modelsPlace] :: (ms.map fun a => fieldIdent a.name).map fun n => [modelsPlace, n] := by
    rw [List.map_cons, List.map_map, List.map_map]
    rfl
  have hown : [modelsPlace] ∉ (ms.map fun a => fieldIdent a.name).map fun n =>
      [modelsPlace, n] := by
    simp
  have hinj : Function.Injective fun n => [modelsPlace, n] := fun a b he => by simpa using he
  rw [hplaces, List.nodup_cons, List.nodup_map_iff hinj, nodup_idents_iff]
  exact and_iff_right hown

/-! ## The modules of a target -/

section Modules

variable {m : Metadata} {client : Bool} {tree : ModuleTree} {ms : List Model}

/-- A target without a client needs the contract, the models and the handlers. -/
theorem exists_ofMetadata_of_modules {r s : SourceModule} {mods : List SourceModule}
    (hr : contractModule m = .ok r) (hmods : (modelModules m).1 = .ok mods)
    (hs : controllerModule m = .ok s) : ∃ tree, ModuleTree.ofMetadata m false = .ok tree := by
  unfold ModuleTree.ofMetadata
  rw [hr, hmods, hs]
  exact ⟨_, rfl⟩

theorem place_contractModule {r : SourceModule} (h : contractModule m = .ok r) :
    r.place = ["server"] := by
  obtain ⟨_, -, h⟩ := bind_eq_ok.1 h
  obtain ⟨_, -, h⟩ := bind_eq_ok.1 h
  rw [← Except.ok.inj h]

theorem place_controllerModule {s : SourceModule} (h : controllerModule m = .ok s) :
    s.place = ["routes"] := by
  obtain ⟨_, -, h⟩ := bind_eq_ok.1 h
  obtain ⟨_, -, h⟩ := bind_eq_ok.1 h
  rw [← Except.ok.inj h]

theorem place_clientModule {t : SourceModule} (h : clientModule m = .ok t) :
    t.place = ["client"] := by
  obtain ⟨_, -, h⟩ := bind_eq_ok.1 h
  obtain ⟨_, -, h⟩ := bind_eq_ok.1 h
  rw [← Except.ok.inj h]

theorem named_ident (s : String) : Plain (fieldIdent s).toList ∧ fieldIdent s ≠ "mod" := by
  have hnot : ∀ c : Char, c.isAlphanum = false → c ≠ '_' → c ∉ (fieldIdent s).toList := by
    intro c hc hu hm
    rcases mem_fieldIdent hm with ha | ha
    · rw [hc] at ha
      cases ha
    · exact hu ha
  refine ⟨⟨toList_fieldIdent_ne_nil s, hnot '/' (by decide) (by decide),
    hnot '.' (by decide) (by decide)⟩, fun he => ?_⟩
  have hkeyword := isKeyword_fieldIdent s
  rw [he] at hkeyword
  revert hkeyword
  decide

theorem named_sourceModule (a : Model) : Named a.sourceModule.place where
  plain := by
    simp only [Model.sourceModule, List.mem_cons, List.not_mem_nil, or_false, forall_eq_or_imp,
      forall_eq]
    exact ⟨by decide, (named_ident a.name).1⟩
  ne_mod := by
    simp only [Model.sourceModule, List.mem_cons, List.not_mem_nil, or_false, forall_eq_or_imp,
      forall_eq]
    exact ⟨by decide, (named_ident a.name).2⟩

end Modules

/-- The modules of a target: others before those of the models, and behind them. -/
structure Assembled (before after : List SourceModule) (ms : List Model) (tree : ModuleTree) :
    Prop where
  modules : tree.modules = before ++ (exportModule ms :: ms.map (·.sourceModule) ++ after)
  before : before.map (·.place) = [[], ["server"]]
  after : after.map (·.place) = [["routes"]] ∨ after.map (·.place) = [["routes"], ["client"]]

/-- The path of the file of a model. -/
def Model.path (a : Model) : FilePath :=
  ⟨modelsPlace ++ "/" ++ fieldIdent a.name ++ ".rs"⟩

/-- The line that declares the module of a model. -/
def Model.declaration (a : Model) : Code :=
  Code.flat "pub mod" ++ Code.word (fieldIdent a.name) ++ Code.flat ";"

namespace Assembled

variable {before after : List SourceModule} {ms : List Model} {tree : ModuleTree} {x : SourceModule}

theorem exists_of_ofMetadata {m : Metadata} {client : Bool} (hms : (models m).1 = .ok ms)
    (h : ModuleTree.ofMetadata m client = .ok tree) :
    ∃ before after, Assembled before after ms tree := by
  obtain ⟨r, hr, h⟩ := bind_eq_ok.1 h
  obtain ⟨mods, hmods, h⟩ := bind_eq_ok.1 h
  obtain rfl : exportModule ms :: ms.map (·.sourceModule) = mods :=
    Except.ok.inj ((modelModules_eq_ok.2 ⟨ms, hms, rfl⟩).symm.trans hmods)
  obtain ⟨s, hs, h⟩ := bind_eq_ok.1 h
  have hbefore : [ModuleTree.rootModule m client, r].map (·.place) = [[], ["server"]] := by
    rw [List.map_cons, List.map_singleton, place_contractModule hr]
    rfl
  cases client with
  | false =>
      obtain rfl := Except.ok.inj h
      refine ⟨_, [s], rfl, hbefore, Or.inl ?_⟩
      rw [List.map_singleton, place_controllerModule hs]
  | true =>
      obtain ⟨_, hclients, h⟩ := bind_eq_ok.1 h
      obtain ⟨t, ht, rfl⟩ := map_eq_ok.1 hclients
      obtain rfl := Except.ok.inj h
      refine ⟨_, [s, t], rfl, hbefore, Or.inr ?_⟩
      rw [List.map_cons, List.map_singleton, place_controllerModule hs, place_clientModule ht]

theorem place_before (h : Assembled before after ms tree) (hx : x ∈ before) :
    x.place = [] ∨ x.place = ["server"] := by
  have hplace : x.place ∈ before.map (·.place) := List.mem_map_of_mem hx
  rw [h.before] at hplace
  simpa using hplace

theorem place_after (h : Assembled before after ms tree) (hx : x ∈ after) :
    x.place = ["routes"] ∨ x.place = ["client"] := by
  have hplace : x.place ∈ after.map (·.place) := List.mem_map_of_mem hx
  rcases h.after with hafter | hafter
  · rw [hafter] at hplace
    exact Or.inl (List.mem_singleton.1 hplace)
  · rw [hafter] at hplace
    simpa using hplace

/-- A module is that of a model, or has one of few places. -/
theorem place_of_mem (h : Assembled before after ms tree) (hx : x ∈ tree.modules) :
    x.place ∈ [[], ["server"], [modelsPlace], ["routes"], ["client"]] ∨
      ∃ a ∈ ms, x.place = a.sourceModule.place := by
  rw [h.modules, List.mem_append, List.mem_append, List.mem_cons] at hx
  rcases hx with hx | (rfl | hx) | hx
  · exact Or.inl (by rcases h.place_before hx with hplace | hplace <;> simp [hplace])
  · exact Or.inl (by simp [exportModule])
  · obtain ⟨a, ha, rfl⟩ := List.mem_map.1 hx
    exact Or.inr ⟨a, ha, rfl⟩
  · exact Or.inl (by rcases h.place_after hx with hplace | hplace <;> simp [hplace])

theorem named (h : Assembled before after ms tree) : ∀ x ∈ tree.modules, Named x.place := by
  intro x hx
  rcases h.place_of_mem hx with hplace | ⟨a, -, hplace⟩
  · have hall : ∀ place ∈ [[], ["server"], [modelsPlace], ["routes"], ["client"]], Named place := by
      decide
    exact hall _ hplace
  · rw [hplace]
    exact named_sourceModule a

/-- Below the module of models stand those of models. -/
theorem children_models (h : Assembled before after ms tree) :
    tree.children [modelsPlace] = ms.map (·.sourceModule) := by
  have hbefore : before.filter (ModuleTree.isBelow [modelsPlace]) = [] := by
    refine List.filter_eq_nil_iff.2 fun x hx => ?_
    rcases h.place_before hx with hplace | hplace <;> simp [ModuleTree.isBelow, hplace]
  have hmodels : (ms.map (·.sourceModule)).filter (ModuleTree.isBelow [modelsPlace]) =
      ms.map (·.sourceModule) := by
    refine List.filter_eq_self.2 fun x hx => ?_
    obtain ⟨a, -, rfl⟩ := List.mem_map.1 hx
    simp [ModuleTree.isBelow, Model.sourceModule]
  have hafter : after.filter (ModuleTree.isBelow [modelsPlace]) = [] := by
    refine List.filter_eq_nil_iff.2 fun x hx => ?_
    rcases h.place_after hx with hplace | hplace <;> simp [ModuleTree.isBelow, hplace]
  have hown : ModuleTree.isBelow [modelsPlace] (exportModule ms) = false := rfl
  rw [ModuleTree.children, h.modules, List.filter_append, List.filter_append,
    List.filter_cons, hown,
    hbefore, hmodels, hafter]
  simp

/-- Below the module of a model stands no other. -/
theorem children_sourceModule (h : Assembled before after ms tree) (a : Model) :
    tree.children a.sourceModule.place = [] := by
  refine List.filter_eq_nil_iff.2 fun x hx => ?_
  have hlength : x.place.length < 3 := by
    rcases h.place_of_mem hx with hplace | ⟨b, -, hplace⟩
    · have hall : ∀ place ∈ [[], ["server"], [modelsPlace], ["routes"], ["client"]],
          place.length < 3 := by decide
      exact hall _ hplace
    · rw [hplace]
      exact Nat.lt_succ_self 2
  have hne : x.place.length ≠ a.sourceModule.place.length + 1 := Nat.ne_of_lt hlength
  simp [ModuleTree.isBelow, hne]

/-- The file of a model has only its identifier for a name. -/
theorem pathOf_sourceModule (h : Assembled before after ms tree) (a : Model) :
    tree.pathOf a.sourceModule = a.path := by
  have hspot : tree.spotOf a.sourceModule = ([modelsPlace], fieldIdent a.name) := by
    rw [ModuleTree.spotOf, h.children_sourceModule]
    rfl
  rw [ModuleTree.pathOf_eq tree (named_sourceModule a).plain, hspot, FilePath.ofChars,
    String.ofList_append, String.ofList_append, String.ofList_toList, String.ofList_toList]
  exact congrArg FilePath.mk (String.append_assoc).symm

theorem place_exportModule (ms : List Model) : (exportModule ms).place = [modelsPlace] :=
  rfl

theorem pathOf_exportModule (h : Assembled before after ms tree) (hne : ms ≠ []) :
    tree.pathOf (exportModule ms) = ⟨"models/mod.rs"⟩ := by
  have hspot : tree.spotOf (exportModule ms) = ([modelsPlace], "mod") := by
    have hchildren : (tree.children (exportModule ms).place).isEmpty = false := by
      rw [place_exportModule, h.children_models]
      simpa using hne
    rw [ModuleTree.spotOf, hchildren]
    rfl
  have hnamed : Named (exportModule ms).place := by
    rw [place_exportModule]
    decide
  rw [ModuleTree.pathOf_eq tree hnamed.plain, hspot]
  decide

theorem textOf_sourceModule (h : Assembled before after ms tree) (a : Model) :
    tree.textOf a.sourceModule = fileText a.code := by
  rw [ModuleTree.textOf, ModuleTree.declarations, h.children_sourceModule]
  rfl

theorem textOf_exportModule (h : Assembled before after ms tree) :
    tree.textOf (exportModule ms) =
      fileText (ms.flatMap (·.declaration) ++ ms.flatMap (·.exportLine)) := by
  rw [ModuleTree.textOf, ModuleTree.declarations, place_exportModule, h.children_models,
    List.flatMap_map]
  rfl

theorem nodup_places_iff (h : Assembled before after ms tree) :
    (tree.modules.map (·.place)).Nodup ↔ Apart ms := by
  have hplaces : (ms.map (·.sourceModule)).map (·.place) =
      ms.map fun a => [modelsPlace, fieldIdent a.name] := by
    rw [List.map_map]
    rfl
  rw [← nodup_modules_iff, h.modules, List.map_append, List.map_append, List.map_cons, h.before,
    hplaces]
  rcases h.after with hafter | hafter
  · rw [hafter]
    simp [List.nodup_append, exportModule, modelsPlace]
  · rw [hafter]
    simp [List.nodup_append, exportModule, modelsPlace]

/-- The file of a model holds the last one with its words. -/
theorem read_model (h : Assembled before after ms tree) {d : Disk} {out : FilePath}
    (hwritten : (d.writeAll (tree.below out)).result = .ok ()) {a b : Model}
    (hb : lastAlike ms a = some b) :
    (d.writeAll (tree.below out)).disk.read (out.join a.path) = .ok (fileText b.code).toUTF8 := by
  obtain ⟨hwords, first, rest, hms, hrest⟩ := lastAlike_eq_some hb
  have hpath : a.path = b.path := by
    rw [Model.path, Model.path, fieldIdent_eq_iff.2 hwords]
  have hmods : tree.modules = (before ++ exportModule ms :: first.map (·.sourceModule)) ++
      b.sourceModule :: (rest.map (·.sourceModule) ++ after) := by
    rw [h.modules, hms]
    simp
  have hlast : ∀ x ∈ rest.map (·.sourceModule) ++ after, x.place ≠ b.sourceModule.place := by
    intro x hx
    rcases List.mem_append.1 hx with hx | hx
    · obtain ⟨c, hc, rfl⟩ := List.mem_map.1 hx
      intro hplace
      have hident : fieldIdent c.name = fieldIdent b.name := by
        simpa [Model.sourceModule] using hplace
      exact hrest c hc ((fieldIdent_eq_iff.1 hident).trans hwords)
    · rcases h.place_after hx with hplace | hplace <;> simp [hplace, Model.sourceModule]
  have hread := read_of_modules hwritten h.named hmods hlast
  rwa [h.pathOf_sourceModule, h.textOf_sourceModule, ← hpath] at hread

end Assembled

/-! ## Files -/

/-- What the files of a target are for its models. -/
structure ModelFiles (ms : List Model) (t : Target) (files : List (FilePath × String)) : Prop where
  /-- The module above those of models declares each of them, and each has a file with its code. -/
  rendered : ((⟨"models/mod.rs"⟩,
    fileText (ms.flatMap (·.declaration) ++ ms.flatMap (·.exportLine))) ::
    ms.map fun a => (a.path, fileText a.code)) <:+: files
  /-- Paths are different exactly if no two models have names with the same words. -/
  paths : (files.map (·.1)).Nodup ↔ Apart ms
  /-- When all files are written, that of a model holds the last one with its words. -/
  held : ∀ d : Disk, (d.writeAll (t.placed files)).result = .ok () → ∀ a ∈ ms, ∃ b,
    lastAlike ms a = some b ∧
      (d.writeAll (t.placed files)).disk.read (t.output.join a.path) = .ok (fileText b.code).toUTF8

section Files

variable {m : Metadata} {mods : List SourceModule} {ms : List Model} {t : Target}
  {files : List (FilePath × String)}

theorem modelFiles_of_render (hms : (models m).1 = .ok ms) (ht : t.bundle = false)
    (hrender : t.render m = .ok files) : ModelFiles ms t files := by
  obtain ⟨tree, htree, -, rfl⟩ := (Target.renderWith_files_eq_ok ht).1 hrender
  obtain ⟨before, after, hassembled⟩ := Assembled.exists_of_ofMetadata hms htree
  have hne : ms ≠ [] := List.ne_nil_of_mem (collected_of_models hms).upload_mem
  constructor
  case rendered =>
    refine ⟨before.map fun x => (tree.pathOf x, tree.textOf x),
      after.map fun x => (tree.pathOf x, tree.textOf x), ?_⟩
    rw [ModuleTree.files_eq, hassembled.modules]
    simp [hassembled.pathOf_exportModule hne, hassembled.textOf_exportModule,
      hassembled.pathOf_sourceModule, hassembled.textOf_sourceModule]
  case paths =>
    rw [List.map_map, ← hassembled.nodup_places_iff, ← nodup_paths_iff hassembled.named]
    rfl
  case held =>
    rw [Target.placed_files ht]
    intro d hwritten a ha
    obtain ⟨b, hb⟩ := exists_lastAlike ha
    exact ⟨b, hb, hassembled.read_model hwritten hb⟩

/-- The modules and the files of models are different exactly if no two models have names with the
same words, and only then the file of each holds its own code. -/
theorem model_files (hmods : (modelModules m).1 = .ok mods) :
    ∃ ms, (models m).1 = .ok ms ∧ mods = exportModule ms :: ms.map (·.sourceModule) ∧
      ((mods.map (·.place)).Nodup ↔ Apart ms) ∧
      ((∀ a ∈ ms, lastAlike ms a = some a) ↔ Apart ms) ∧
      ∀ (t : Target) files, t.bundle = false → t.render m = .ok files → ModelFiles ms t files := by
  obtain ⟨ms, hms, rfl⟩ := modelModules_eq_ok.1 hmods
  exact ⟨ms, hms, rfl, nodup_modules_iff ms, lastAlike_iff_apart (collected_of_models hms).nodup,
    fun t files ht hrender => modelFiles_of_render hms ht hrender⟩

open Resolve (reportMetadata) in
theorem model_files_reports :
    (modelModules reportMetadata).1 =
        .ok (exportModule reportModels :: reportModels.map (·.sourceModule)) ∧
      Apart reportModels ∧
      ((exportModule reportModels :: reportModels.map (·.sourceModule)).map (·.place)).Nodup := by
  have hmods : (modelModules reportMetadata).1 =
      .ok (exportModule reportModels :: reportModels.map (·.sourceModule)) :=
    modelModules_eq_ok.2 ⟨reportModels, models_reports, rfl⟩
  have hapart : Apart reportModels := by decide
  obtain ⟨ms, hms, -, hnodup, -⟩ := model_files hmods
  obtain rfl := Except.ok.inj (hms.symm.trans models_reports)
  exact ⟨hmods, hapart, hnodup.2 hapart⟩

end Files

/-! ## Two names with the same words -/

section Clients

open Resolve (Progress endpoint jsonBody operationsOf reference resolve_of_operation responseBody
  responseVariant run_jsonBody_of_named run_named_record run_operation_of run_propertiesOf_nil
  run_reference_eq_ok run_requestBody_none run_responseBody_of run_responseHeaders_none
  run_responseVariant_json run_responseVariants_cons)

/-- A response with the record behind a pointer. -/
def clientResponse (p : String) : Document.Response where
  description := none
  headers := []
  content := [("application/json", { schema := some { ref := some p } })]

def upperPointer : String :=
  "#/components/schemas/HTTPClient"

def mixedPointer : String :=
  "#/components/schemas/HttpClient"

def getClient : Document.Operation where
  operationId := some "getClient"
  responses := [("200", clientResponse upperPointer), ("404", clientResponse mixedPointer)]

/-- A document with two records whose names have the same words. -/
def clientDocument : Document where
  paths := [("/client", { get := some getClient })]
  components := {
    schemas := [
      ("HTTPClient", { type := some "object" }),
      ("HttpClient", { type := some "object" })] }

def clientVariant (name p : String) : Variant where
  name := name
  headers := none
  payload := .body (.ref p) false

def clientProgress : Progress where
  table := {
    entries := [(upperPointer, .object (some "HTTPClient") []),
      (mixedPointer, .object (some "HttpClient") [])]
    nodup_keys := by decide }
  entered := [upperPointer, mixedPointer]

def clientMetadata : Metadata where
  namePrefix := "Api"
  operations := [{
    path := "/client"
    method := .get
    operationId := "getClient"
    summary := none
    params := []
    requestBody := none
    responseBody := {
      className := "GetClientResponse"
      variants := [(.code 200, clientVariant "HTTPClient" upperPointer),
        (.code 404, clientVariant "HttpClient" mixedPointer)] } }]
  refs := clientProgress.table

theorem run_reference_upper : (reference clientDocument [] upperPointer).run {} =
    .ok (.ref upperPointer, {
      table := RefTable.empty.insert upperPointer (.object (some "HTTPClient") [])
      entered := [upperPointer] }) := by
  refine (run_reference_eq_ok (by decide) (by decide)).2
    ⟨rfl, _, "HTTPClient", .object (some "HTTPClient") [], { entered := [upperPointer] },
      rfl, rfl, ?_, rfl⟩
  exact run_named_record (by decide) (by decide) (by decide) run_propertiesOf_nil

theorem run_reference_mixed : (reference clientDocument [] mixedPointer).run {
      table := RefTable.empty.insert upperPointer (.object (some "HTTPClient") [])
      entered := [upperPointer] } =
    .ok (.ref mixedPointer, clientProgress) := by
  refine (run_reference_eq_ok (by decide) (by decide)).2
    ⟨rfl, _, "HttpClient", .object (some "HttpClient") [], {
      table := RefTable.empty.insert upperPointer (.object (some "HTTPClient") [])
      entered := [upperPointer, mixedPointer] }, rfl, rfl, ?_, rfl⟩
  exact run_named_record (by decide) (by decide) (by decide) run_propertiesOf_nil

theorem run_responseBody_client : (responseBody clientDocument "getClient" getClient).run {} =
    .ok ({
      className := "GetClientResponse"
      variants := [(.code 200, clientVariant "HTTPClient" upperPointer),
        (.code 404, clientVariant "HttpClient" mixedPointer)] }, clientProgress) := by
  have hupperBody : (jsonBody clientDocument "getClient" "GetClientResponse" (.code 200)
      { ref := some upperPointer }).run {} = .ok (("HTTPClient", .ref upperPointer), _) :=
    run_jsonBody_of_named rfl run_reference_upper rfl rfl
  have hupper : (responseVariant clientDocument "getClient" "GetClientResponse" (.code 200)
      (clientResponse upperPointer)).run {} = .ok (clientVariant "HTTPClient" upperPointer, _) :=
    run_responseVariant_json rfl hupperBody (run_responseHeaders_none rfl)
  have hmixedBody : (jsonBody clientDocument "getClient" "GetClientResponse" (.code 404)
      { ref := some mixedPointer }).run _ = .ok (("HttpClient", .ref mixedPointer), _) :=
    run_jsonBody_of_named rfl run_reference_mixed rfl rfl
  have hmixed : (responseVariant clientDocument "getClient" "GetClientResponse" (.code 404)
      (clientResponse mixedPointer)).run _ = .ok (clientVariant "HttpClient" mixedPointer, _) :=
    run_responseVariant_json rfl hmixedBody (run_responseHeaders_none rfl)
  refine run_responseBody_of "GetClient" rfl ?_
  refine run_responseVariants_cons rfl hupper rfl rfl ?_
  exact run_responseVariants_cons rfl hmixed rfl rfl rfl

theorem resolve_clientDocument : clientDocument.resolve "Api" = .ok (clientMetadata, []) := by
  have hes : operationsOf clientDocument =
      [("/client", .get, { get := some getClient }, getClient)] := rfl
  have hrun : (endpoint clientDocument
      ("/client", .get, { get := some getClient }, getClient)).run {} = .ok (_, clientProgress) :=
    run_operation_of rfl rfl rfl rfl rfl rfl (run_requestBody_none rfl) run_responseBody_client
  exact resolve_of_operation hes rfl hrun

def upperModel : Model where
  name := "HTTPClient"
  descriptor := some (.object (some "HTTPClient") [])
  shape := .openRecord

def mixedModel : Model where
  name := "HttpClient"
  descriptor := some (.object (some "HttpClient") [])
  shape := .openRecord

def getClientSum : Descriptor :=
  .oneOf "GetClientResponse" [("HTTPClient", [.ref upperPointer]),
    ("HttpClient", [.ref mixedPointer])]

def getClientModel : Model where
  name := "GetClientResponse"
  descriptor := some getClientSum
  shape := .sum [{ tag := "HTTPClient", members := [("http_client", .model "HTTPClient")] },
    { tag := "HttpClient", members := [("http_client", .model "HttpClient")] }]

theorem models_client :
    (models clientMetadata).1 = .ok [upload, upperModel, mixedModel, getClientModel] := by
  have hupper : typeOf clientProgress.table (.ref upperPointer) = .ok (.model "HTTPClient") :=
    typeOf_eq_model_iff.2 ⟨_, rfl, rfl⟩
  have hmixed : typeOf clientProgress.table (.ref mixedPointer) = .ok (.model "HttpClient") :=
    typeOf_eq_model_iff.2 ⟨_, rfl, rfl⟩
  have hsum : claimPart clientProgress.table getClientSum =
      claim "GetClientResponse" getClientSum (.ok getClientModel.shape) := by
    have hone := mapM_eq_ok.2 (.cons (memberOf_of_typeOf hupper) .nil)
    have htwo := mapM_eq_ok.2 (.cons (memberOf_of_typeOf hmixed) .nil)
    refine congrArg (claim "GetClientResponse" _) ?_
    refine map_eq_ok.2 ⟨_, mapM_eq_ok.2 (.cons ?_ (.cons ?_ .nil)), rfl⟩
    · exact bind_eq_ok.2 ⟨_, hone, rfl⟩
    · exact bind_eq_ok.2 ⟨_, htwo, rfl⟩
  have hclaims : (allParts clientMetadata).forM (claimPart clientProgress.table) =
      (claim "HTTPClient" (.object (some "HTTPClient") []) (.ok .openRecord) >>= fun _ =>
        claim "HttpClient" (.object (some "HttpClient") []) (.ok .openRecord) >>= fun _ =>
          claim "GetClientResponse" getClientSum (.ok getClientModel.shape)) := by
    have hparts : allParts clientMetadata = [.object (some "HTTPClient") [],
        .object (some "HttpClient") [], getClientSum, .ref upperPointer, .ref mixedPointer] := rfl
    have hrecord : ∀ name, claimPart clientProgress.table (.object (some name) []) =
      claim name (.object (some name) []) (.ok .openRecord) := fun _ => rfl
    have hskip : ∀ p, claimPart clientProgress.table (.ref p) = pure () := fun _ => rfl
    rw [hparts]
    simp [hrecord, hsum, hskip]
  exact models_of_claims rfl hclaims

def clientTarget : Target where
  name := "client"
  spec := ⟨"client.json"⟩
  output := ⟨"out"⟩

theorem exists_render_client : ∃ files, clientTarget.render clientMetadata = .ok files := by
  have hcontract : ∃ r, contractModule clientMetadata = .ok r := ⟨_, rfl⟩
  have hcontroller : ∃ s, controllerModule clientMetadata = .ok s := ⟨_, rfl⟩
  obtain ⟨r, hr⟩ := hcontract
  obtain ⟨s, hs⟩ := hcontroller
  have hmods := modelModules_eq_ok.2 ⟨_, models_client, rfl⟩
  obtain ⟨tree, htree⟩ := exists_ofMetadata_of_modules hr hmods hs
  exact ⟨_, (Target.renderWith_files_eq_ok rfl).2 ⟨tree, htree, fun _ _ => rfl, rfl⟩⟩

/-- Two records whose names have the same words are generated for one module: the second is found in
the file of the first. -/
theorem models_share_file :
    clientDocument.resolve "Api" = .ok (clientMetadata, []) ∧
      (∃ mods, (modelModules clientMetadata).1 = .ok mods ∧ ¬ (mods.map (·.place)).Nodup) ∧
      (∃ files, clientTarget.render clientMetadata = .ok files) ∧
      upperModel.code ≠ mixedModel.code ∧
      ∀ (t : Target) files (d : Disk), t.bundle = false → t.render clientMetadata = .ok files →
        (d.writeAll (t.placed files)).result = .ok () →
          (d.writeAll (t.placed files)).disk.read (t.output.join upperModel.path) =
            .ok (fileText mixedModel.code).toUTF8 := by
  refine ⟨resolve_clientDocument, ⟨_, modelModules_eq_ok.2 ⟨_, models_client, rfl⟩, ?_⟩,
    exists_render_client, by decide, ?_⟩
  · rw [nodup_modules_iff]
    decide
  · intro t files d ht hrender hwritten
    obtain ⟨b, hb, hread⟩ :=
      (modelFiles_of_render models_client ht hrender).held d hwritten upperModel (by simp)
    have hlast : lastAlike [upload, upperModel, mixedModel, getClientModel] upperModel =
        some mixedModel := rfl
    rwa [← Option.some.inj (hlast.symm.trans hb)] at hread

end Clients

end Emit
end ApiContract
