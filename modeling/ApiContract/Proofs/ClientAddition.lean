import ApiContract.Proofs.Bundles
import ApiContract.Proofs.CheckedNames
import ApiContract.Proofs.ModelFiles
import ApiContract.Proofs.TypeAgreement

/-!
# What a client adds to a target

**Input:** a resolved document, in which a type name belongs to one descriptor, and the modules of a
target without a client.

A client method needs more than the contract, the models and the handlers are asked for in so many
words: a record behind a multipart body, scalars for the headers of responses, and types for the
records of these headers and for bodies.

**Results:**

* `exists_encodeArm_iff`, `exists_decodeArm_iff`: what a body and a response have to be for a
  client;
* `readable_of_models`: responses of a resolved document are so, if the models can be generated;
* `exists_clientModule`: there is a client if there are models and handlers;
* `Grown`: in a tree with one more module below the root all others keep their files;
* `client_addition`: with the client the target is generated as well, and it has one module more,
  one line more in the root module and no other change.
-/

namespace ApiContract
namespace Emit

/-! ## Requests -/

section Requests

variable {refs : RefTable} {media : Media} {t : Descriptor} {b : RequestBody}

/-- A client can send any body but a multipart one that is no record with a name and fields. -/
theorem exists_encodeArm_iff : (∃ a, encodeArm refs media t = .ok a) ↔
    (media = .multipart → ∃ r, formRecord refs t = .ok r) := by
  constructor
  · rintro ⟨a, ha⟩ rfl
    obtain ⟨r, hr, -⟩ := bind_eq_ok.1 ha
    exact ⟨r, hr⟩
  · intro h
    cases media with
    | json => exact ⟨_, rfl⟩
    | xml => exact ⟨_, rfl⟩
    | form => exact ⟨_, rfl⟩
    | multipart =>
        obtain ⟨r, hr⟩ := h rfl
        exact ⟨_, bind_eq_ok.2 ⟨r, hr, rfl⟩⟩

/-- What a handler can read a client can send. -/
theorem exists_encodeArm_of_bodyArm {a : BodyArm} (h : bodyArm refs media t = .ok a) :
    ∃ a', encodeArm refs media t = .ok a' := by
  refine exists_encodeArm_iff.2 fun hmedia => ?_
  obtain ⟨multipart, g, -, hread⟩ := exists_form_of_bodyArm h (Or.inr hmedia)
  obtain ⟨r, hr, -⟩ := bind_eq_ok.1 hread
  exact ⟨r, hr⟩

theorem exists_bodyEncode {k : BodyDispatch} (h : bodyDispatch refs b = .ok k) :
    ∃ c, bodyEncode refs b = .ok c := by
  obtain ⟨-, -, harms⟩ := bodyDispatch_eq_ok h
  have hsend : ∀ e ∈ b.content, ∃ a, encodeArm refs e.1 e.2 = .ok a := by
    intro e he
    obtain ⟨a, -, ha⟩ := exists_of_mem_right harms.flip he
    exact exists_encodeArm_of_bodyArm ha
  obtain ⟨arms, harms⟩ := exists_mapM_iff.2 hsend
  exact ⟨_, bind_eq_ok.2 ⟨arms, harms, rfl⟩⟩

end Requests

/-! ## Responses -/

/-- What a client asks of a response: its headers are a record of scalars with a type, and a body
that is no file has a type. -/
structure Readable (refs : RefTable) (v : Variant) : Prop where
  headers : ∀ u, v.headers = some u → (∃ type, typeOf refs u = .ok type) ∧
    ∃ name? ps, u = .object name? ps ∧ ∀ p ∈ ps, ∃ q, p.type = .primitive q
  body : ∀ t, v.payload = .body t false → ∃ type, typeOf refs t = .ok type

section Responses

variable {refs : RefTable} {st : Status} {v : Variant}

theorem exists_headerRead_iff {p : Property} :
    (∃ h, headerRead p = .ok h) ↔ ∃ q, p.type = .primitive q := by
  constructor
  · rintro ⟨h, hh⟩
    exact ⟨h.scalar, (headerRead_eq_ok hh).2.2.2⟩
  · rintro ⟨q, hq⟩
    unfold headerRead
    rw [hq]
    exact ⟨_, rfl⟩

theorem exists_headerProperties_iff {u : Descriptor} {ps : List Property} :
    headerProperties v u = .ok ps ↔ ∃ name?, u = .object name? ps := by
  cases u with
  | object name? ps' => simp [headerProperties]
  | _ => simp [headerProperties]

theorem exists_headersRead_iff : (∃ hs, headersRead refs v = .ok hs) ↔
    ∀ u, v.headers = some u → (∃ type, typeOf refs u = .ok type) ∧
      ∃ name? ps, u = .object name? ps ∧ ∀ p ∈ ps, ∃ q, p.type = .primitive q := by
  unfold headersRead
  cases hv : v.headers with
  | none => simp
  | some u =>
      simp only [Option.some.injEq, forall_eq', bind_eq_ok]
      constructor
      · rintro ⟨_, type, htype, ps, hps, reads, hreads, -⟩
        obtain ⟨name?, rfl⟩ := exists_headerProperties_iff.1 hps
        exact ⟨⟨type, htype⟩, name?, ps, rfl, fun p hp =>
          exists_headerRead_iff.1 (exists_mapM_iff.1 ⟨reads, hreads⟩ p hp)⟩
      · rintro ⟨⟨type, htype⟩, name?, ps, rfl, hps⟩
        obtain ⟨reads, hreads⟩ := exists_mapM_iff.2 fun p hp => exists_headerRead_iff.2 (hps p hp)
        exact ⟨_, type, htype, ps, rfl, reads, hreads, rfl⟩

theorem exists_bodyRead_iff : (∃ r, bodyRead refs v.payload = .ok r) ↔
    ∀ t, v.payload = .body t false → ∃ type, typeOf refs t = .ok type := by
  cases v.payload with
  | none => simp [bodyRead]
  | body t isFile =>
      cases isFile with
      | true => simp [bodyRead]
      | false => simp [bodyRead, map_eq_ok]

/-- A client can read a response exactly if it is readable, whatever its status. -/
theorem exists_decodeArm_iff : (∃ b, decodeArm refs st v = .ok b) ↔ Readable refs v := by
  rw [decodeArm_eq]
  simp only [bind_eq_ok]
  constructor
  · rintro ⟨_, hs, hhs, r, hr, -⟩
    exact ⟨exists_headersRead_iff.1 ⟨hs, hhs⟩, exists_bodyRead_iff.1 ⟨r, hr⟩⟩
  · rintro ⟨hheaders, hbody⟩
    obtain ⟨hs, hhs⟩ := exists_headersRead_iff.2 hheaders
    obtain ⟨r, hr⟩ := exists_bodyRead_iff.2 hbody
    exact ⟨_, hs, hhs, r, hr, rfl⟩

end Responses

/-! ## Resolved documents -/

section Resolved

variable {d : Document} {namePrefix : String} {m : Metadata} {ws : List Warning} {ms : List Model}
  {o : Operation}

theorem append_response_ne_uploadModel (name : String) : name ++ "Response" ≠ uploadModel := by
  intro h
  have hlast := congrArg (fun s => s.toList.getLast?) h
  simp [uploadModel] at hlast

/-- The model of the responses of an operation was made from what is like them. -/
theorem descriptor_of_responses (h : d.resolve namePrefix = .ok (m, ws))
    (hc : Collected m.refs (allParts m) ms) (hd : DistinctNames m) (ho : o ∈ m.operations) :
    ∀ r ∈ ms, r.name = o.responseBody.className →
      ∃ u, r.descriptor = some u ∧ u.alike o.responseBody.sum = true := by
  obtain ⟨_, _, _, hbody⟩ := Resolve.exists_run_responseBody h ho
  obtain ⟨⟨name, -, hclass⟩, -⟩ := Resolve.run_responseBody hbody
  intro r hr hname
  refine exists_alike_of_name? hc hd (mem_allParts_of_mem_sumsOf ho List.mem_cons_self) hr ?_ ?_
  · rw [Resolve.sum_eq (Resolve.nodup_names_of_responseBody hbody), hname]
    rfl
  · rw [hname, hclass]
    exact append_response_ne_uploadModel name

/-- Where the model of the responses can be generated, each of them has what a client asks for: what
it carries has a type, since it is a member of the model. -/
theorem readable_of_models (h : d.resolve namePrefix = .ok (m, ws)) (hms : (models m).1 = .ok ms)
    (hd : DistinctNames m) (ho : o ∈ m.operations) :
    ∀ e ∈ o.responseBody.variants, Readable m.refs e.2 := by
  obtain ⟨_, _, _, hbody⟩ := Resolve.exists_run_responseBody h ho
  have hc := collected_of_models hms
  obtain ⟨_, _, _, svs, _, hsvs⟩ := exists_responseModel h hc ho
    (Resolve.nodup_names_of_responseBody hbody) (descriptor_of_responses h hc hd ho)
  intro e he
  obtain ⟨sv, -, -, hmembers⟩ := exists_of_mem_right hsvs.flip he
  have htyped : ∀ t ∈ e.2.members, ∃ type, typeOf m.refs t = .ok type := by
    intro t ht
    obtain ⟨member, -, -, htype⟩ := exists_of_mem_right hmembers.flip ht
    exact ⟨member.2, htype⟩
  constructor
  · intro u hu
    obtain ⟨name, ps, hrecord, hps⟩ := Resolve.headerTypes_of_responseBody hbody he hu
    exact ⟨htyped u (by simp [Variant.members, hu]), some name, ps, hrecord, hps⟩
  · intro t ht
    exact htyped t (by simp [Variant.members, Variant.body?, ht])

/-- The operation of a handler has a client method. -/
theorem exists_clientMethod_of_handler (h : d.resolve namePrefix = .ok (m, ws))
    (hms : (models m).1 = .ok ms) (hd : DistinctNames m) (ho : o ∈ m.operations) {k : Handler}
    (hk : handler m.refs o = .ok k) : ∃ c, clientMethod m.refs o = .ok c := by
  obtain ⟨cs, hcs, hof⟩ := handler_eq_ok hk
  obtain ⟨arms, harms⟩ : ∃ arms, o.responseBody.variants.mapM
      (fun e => decodeArm m.refs e.1 e.2) = .ok arms :=
    exists_mapM_iff.2 fun e he => exists_decodeArm_iff.2 (readable_of_models h hms hd ho e he)
  have hdispatch := hof.body
  cases hb : o.requestBody with
  | none =>
      obtain ⟨c, hc, -⟩ := exists_clientMethod_of_none hb hcs harms
      exact ⟨c, hc⟩
  | some b =>
      rw [hb] at hdispatch
      obtain ⟨_, hread, -⟩ := exists_of_rel_some hdispatch
      obtain ⟨r, hr⟩ := exists_bodyEncode hread
      obtain ⟨c, hc, -⟩ := exists_clientMethod_of_some hb hcs hr harms
      exact ⟨c, hc⟩

/-- There is a client if there are models and handlers. -/
theorem exists_clientModule (h : d.resolve namePrefix = .ok (m, ws)) (hms : (models m).1 = .ok ms)
    (hd : DistinctNames m) {s : SourceModule} (hs : controllerModule m = .ok s) :
    ∃ t, clientModule m = .ok t := by
  have hmethods : ∀ o ∈ m.operations, ∃ c, clientMethod m.refs o = .ok c := by
    intro o ho
    obtain ⟨k, hk, -⟩ := exists_handler hs ho
    exact exists_clientMethod_of_handler h hms hd ho hk
  obtain ⟨cs, hcs⟩ := exists_mapM_iff.2 hmethods
  have hcheck : checkNames m = .ok () := Resolve.checkNames_of_resolve h
  exact exists_clientModule_of_methods hcheck hcs

end Resolved

end Emit

/-! ## One more module -/

namespace ModuleTree

open Code (flat braces)
open FilePath (ofChars)

/-- Trees with different roots and the same modules below them, but for one that the second has at
its end. -/
structure Grown (root root' new : SourceModule) (rest : List SourceModule) (t t' : ModuleTree) :
    Prop where
  modules : t.modules = root :: rest
  modules' : t'.modules = root' :: (rest ++ [new])
  place_root : root.place = []
  place_root' : root'.place = []
  place_new : ∃ name, new.place = [name]
  place_rest : ∀ x ∈ rest, x.place ≠ []
  /-- Nothing stands below the new module. -/
  leaf : ∀ x ∈ rest, isBelow new.place x = false

namespace Grown

variable {root root' new x : SourceModule} {rest : List SourceModule} {t t' : ModuleTree}
  {place : List String} {depth : Nat}

theorem isBelow_eq_false (hplace : x.place = []) : isBelow place x = false := by
  simp [isBelow, hplace]

theorem isBelow_new (h : Grown root root' new rest t t') : isBelow place new = place.isEmpty := by
  obtain ⟨name, hname⟩ := h.place_new
  rw [isBelow, hname]
  cases place with
  | nil => rfl
  | cons n place => simp

theorem children_eq (h : Grown root root' new rest t t') :
    t'.children place = t.children place ++ if place.isEmpty then [new] else [] := by
  rw [children, children, h.modules, h.modules',
    List.filter_cons_of_neg (by simp [isBelow_eq_false h.place_root']),
    List.filter_cons_of_neg (by simp [isBelow_eq_false h.place_root]), List.filter_append,
    List.filter_singleton, h.isBelow_new, cond_eq_ite]

theorem children_of_ne_nil (h : Grown root root' new rest t t') (hplace : place ≠ []) :
    t'.children place = t.children place := by
  rw [h.children_eq, if_neg (by simpa using hplace), List.append_nil]

theorem children_new (h : Grown root root' new rest t t') : t'.children new.place = [] := by
  obtain ⟨name, hname⟩ := h.place_new
  rw [h.children_of_ne_nil (by simp [hname]), children, h.modules, List.filter_eq_nil_iff,
    List.forall_mem_cons, isBelow_eq_false h.place_root]
  exact ⟨Bool.false_ne_true, fun x hx => Bool.eq_false_iff.1 (h.leaf x hx)⟩

/-! ### Files -/

theorem fileFor_eq (h : Grown root root' new rest t t') (hx : x.place ≠ []) :
    t'.fileFor x = t.fileFor x := by
  rw [fileFor, fileFor, pathOf, pathOf, declarations, declarations, h.children_of_ne_nil hx]

theorem fileFor_new (h : Grown root root' new rest t t') :
    t'.fileFor new = { path := t'.pathOf new, code := new.code } := by
  rw [fileFor, declarations, h.children_new]
  rfl

theorem pathOf_new (h : Grown root root' new rest t t') {name : String} (hname : new.place = [name])
    (hplain : Plain name.toList) : t'.pathOf new = ⟨name ++ ".rs"⟩ := by
  have hspot : t'.spotOf new = ([], name) := by
    rw [spotOf, h.children_new, hname]
    rfl
  rw [pathOf_eq t' (by simpa [hname] using hplain), hspot, ofChars, String.ofList_append,
    String.ofList_append, String.ofList_toList, String.ofList_toList]
  exact congrArg FilePath.mk String.empty_append

theorem declarations_root (h : Grown root root' new rest t t') :
    t'.declarations [] = t.declarations [] ++ (heading new ++ flat ";") := by
  rw [declarations, declarations, h.children_eq, List.flatMap_append]
  exact congrArg _ (List.flatMap_singleton _ _)

theorem files_eq (h : Grown root root' new rest t t') :
    ∃ fs, t.files = ⟨⟨"mod.rs"⟩, t.declarations [] ++ root.code⟩ :: fs ∧
      t'.files = ⟨⟨"mod.rs"⟩, t.declarations [] ++ (heading new ++ flat ";") ++ root'.code⟩ ::
        (fs ++ [⟨t'.pathOf new, new.code⟩]) := by
  refine ⟨rest.map t.fileFor, ?_, ?_⟩
  · rw [files, h.modules, List.map_cons, pathOf_root h.place_root, h.place_root]
    rfl
  · have hrest : rest.map t'.fileFor = rest.map t.fileFor :=
      List.map_congr_left fun x hx => h.fileFor_eq (h.place_rest x hx)
    rw [files, h.modules', List.map_cons, List.map_append, List.map_singleton,
      pathOf_root h.place_root',
      h.place_root', h.declarations_root]
    exact congrArg₂ (fun fs f => _ :: (fs ++ [f])) hrest h.fileFor_new

/-! ### Bundles -/

theorem nested_eq (h : Grown root root' new rest t t') (hx : x.place ≠ []) :
    t'.nested depth x = t.nested depth x := by
  induction depth generalizing x with
  | zero => rfl
  | succ depth ih =>
      rw [nested, nested, h.children_of_ne_nil hx]
      refine congrArg (· ++ x.code) (List.flatMap_congr fun c hc => ?_)
      rw [ih (place_ne_nil_of_mem_children hc)]

theorem nested_new (h : Grown root root' new rest t t') : t'.nested depth new = new.code := by
  cases depth with
  | zero => rfl
  | succ depth =>
      rw [nested, h.children_new]
      rfl

theorem nested_root (h : Grown root root' new rest t t') :
    t'.nested (depth + 1) root' = (t.children []).flatMap
      (fun c => heading c ++ braces (t.nested depth c)) ++ (heading new ++ braces new.code) ++
        root'.code := by
  have hsame : (t.children []).flatMap (fun c => heading c ++ braces (t'.nested depth c)) =
      (t.children []).flatMap fun c => heading c ++ braces (t.nested depth c) := by
    refine List.flatMap_congr fun c hc => ?_
    rw [h.nested_eq (place_ne_nil_of_mem_children hc)]
  rw [nested, h.place_root', h.children_eq, List.flatMap_append, hsame,
    List.isEmpty_nil, if_pos rfl,
    List.flatMap_singleton, h.nested_new]

theorem height_eq (h : Grown root root' new rest t t') : t'.height = max t.height 1 := by
  obtain ⟨name, hname⟩ := h.place_new
  simp [height, h.modules, h.modules', h.place_root, h.place_root', hname]

theorem bundle_eq (h : Grown root root' new rest t t') :
    ∃ inner, t.bundle = .ok (inner ++ root.code) ∧
      t'.bundle = .ok (inner ++ (heading new ++ braces new.code) ++ root'.code) := by
  have hbundle : t.bundle = .ok (t.nested t.height root) := by
    rw [bundle, root?, h.modules, List.find?_cons_of_pos (by simp [h.place_root])]
  have hbundle' : t'.bundle = .ok (t'.nested t'.height root') := by
    rw [bundle, root?, h.modules', List.find?_cons_of_pos (by simp [h.place_root'])]
  -- Both are deep enough with the height of the smaller tree and the new module below its root.
  have hheight := h.height_eq
  have hdeep : t.nested t.height root = t.nested (t.height + 1) root :=
    nested_eq_nested (by omega) (by omega)
  have hdeep' : t'.nested t'.height root' = t'.nested (t.height + 1) root' :=
    nested_eq_nested (by omega) (by omega)
  refine ⟨(t.children []).flatMap fun c => heading c ++ braces (t.nested t.height c), ?_, ?_⟩
  · rw [hbundle, hdeep, nested, h.place_root]
  · rw [hbundle', hdeep', h.nested_root]

end Grown

end ModuleTree

/-! ## A target with a client -/

namespace Emit

open Code (flat braces)
open ModuleTree (Grown export_ heading ofMetadata rootModule)

/-- What a client adds to the modules of a target: one line to the root and a module of its own. -/
structure ClientAdded (m : Metadata) (client : SourceModule) (tree tree' : ModuleTree) : Prop where
  root : rootModule m true =
    { rootModule m false with code := (rootModule m false).code ++ export_ "client" (clientName m) }
  modules : ∃ rest, tree.modules = rootModule m false :: rest ∧
    tree'.modules = rootModule m true :: (rest ++ [client])
  /-- The file of the root also declares the module of the client, the others stay. -/
  files : ∃ fs,
    tree.files = ⟨⟨"mod.rs"⟩, tree.declarations [] ++ (rootModule m false).code⟩ :: fs ∧
    tree'.files = ⟨⟨"mod.rs"⟩, tree.declarations [] ++ (heading client ++ flat ";") ++
      (rootModule m true).code⟩ :: (fs ++ [⟨⟨"client.rs"⟩, client.code⟩])
  /-- So it is in a bundle, where the module of the client stands behind the others. -/
  bundle : ∃ inner, tree.bundle = .ok (inner ++ (rootModule m false).code) ∧
    tree'.bundle = .ok (inner ++ (heading client ++ braces client.code) ++ (rootModule m true).code)

section Addition

variable {d : Document} {namePrefix : String} {m : Metadata} {ws : List Warning}
  {tree : ModuleTree} {client : SourceModule}

theorem rootModule_true (m : Metadata) : rootModule m true =
    { rootModule m false with
      code := (rootModule m false).code ++ export_ "client" (clientName m) } := by
  simp [rootModule]

theorem grown_of_client {r s : SourceModule} (ms : List Model) (hr : contractModule m = .ok r)
    (hs : controllerModule m = .ok s) (ht : clientModule m = .ok client) :
    Grown (rootModule m false) (rootModule m true) client
      (r :: (exportModule ms :: ms.map (·.sourceModule) ++ [s]))
      ⟨rootModule m false :: r :: (exportModule ms :: ms.map (·.sourceModule) ++ [s])⟩
      ⟨rootModule m true :: r :: (exportModule ms :: ms.map (·.sourceModule) ++ [s, client])⟩ := by
  have hplace := place_clientModule ht
  have hrest : ∀ x ∈ r :: (exportModule ms :: ms.map (·.sourceModule) ++ [s]),
      x.place ≠ [] ∧ ModuleTree.isBelow client.place x = false := by
    intro x hx
    rw [List.mem_cons, List.mem_append, List.mem_cons, List.mem_map, List.mem_singleton] at hx
    rw [hplace]
    rcases hx with rfl | (rfl | ⟨a, -, rfl⟩) | rfl
    · simp [ModuleTree.isBelow, place_contractModule hr]
    · simp [ModuleTree.isBelow, exportModule]
    · simp [ModuleTree.isBelow, Model.sourceModule, modelsPlace, List.isPrefixOf]
    · simp [ModuleTree.isBelow, place_controllerModule hs]
  exact {
    modules := rfl
    modules' := by simp
    place_root := rfl
    place_root' := rfl
    place_new := ⟨_, hplace⟩
    place_rest := fun x hx => (hrest x hx).1
    leaf := fun x hx => (hrest x hx).2 }

/-- In a resolved document, in which every type name belongs to one descriptor, a target that can be
generated without a client can be generated with it; the client adds a line to the root module and a
module of its own, and changes nothing else. -/
theorem client_addition (h : d.resolve namePrefix = .ok (m, ws)) (hd : DistinctNames m)
    (htree : ofMetadata m false = .ok tree) :
    ∃ client tree', clientModule m = .ok client ∧
      (makeClient m).run? isIdentText = some (.ok client) ∧
      ofMetadata m true = .ok tree' ∧ ClientAdded m client tree tree' := by
  obtain ⟨r, hr, htree⟩ := bind_eq_ok.1 htree
  obtain ⟨mods, hmods, htree⟩ := bind_eq_ok.1 htree
  obtain ⟨ms, hms, rfl⟩ := modelModules_eq_ok.1 hmods
  obtain ⟨s, hs, htree⟩ := bind_eq_ok.1 htree
  obtain rfl := Except.ok.inj htree
  obtain ⟨client, hclient⟩ := exists_clientModule h hms hd hs
  obtain ⟨-, -, -, hrun⟩ := resolved_identifiers h
  have hgrown := grown_of_client ms hr hs hclient
  have hplace := place_clientModule hclient
  refine ⟨client, _, hclient, hclient ▸ hrun, ?_, {
    root := rootModule_true m
    modules := ⟨_, hgrown.modules, hgrown.modules'⟩
    files := ?_
    bundle := hgrown.bundle_eq }⟩
  · have hclients : (clientModule m).map ([·]) = .ok [client] := map_eq_ok.2 ⟨client, hclient, rfl⟩
    refine bind_eq_ok.2 ⟨r, hr, ?_⟩
    refine bind_eq_ok.2 ⟨_, hmods, ?_⟩
    refine bind_eq_ok.2 ⟨s, hs, ?_⟩
    exact bind_eq_ok.2 ⟨[client], hclients, rfl⟩
  · obtain ⟨fs, hfs, hfs'⟩ := hgrown.files_eq
    rw [hgrown.pathOf_new hplace (by decide)] at hfs'
    exact ⟨fs, hfs, hfs'⟩

end Addition

section Reports

open Resolve (reportDocument reportMetadata reportWarnings resolve_reportDocument)

theorem exists_ofMetadata_reports : ∃ tree, ofMetadata reportMetadata false = .ok tree := by
  obtain ⟨r, hr⟩ := exists_contractModule_reports
  obtain ⟨s, hs⟩ := exists_controllerModule_reports
  have hmods := modelModules_eq_ok.2 ⟨_, models_reports, rfl⟩
  exact exists_ofMetadata_of_modules hr hmods hs

theorem client_addition_reports :
    reportDocument.resolve "Api" = .ok (reportMetadata, reportWarnings) ∧
      DistinctNames reportMetadata ∧ ∃ tree, ofMetadata reportMetadata false = .ok tree ∧
        ∃ client tree', clientModule reportMetadata = .ok client ∧
          (makeClient reportMetadata).run? isIdentText = some (.ok client) ∧
          ofMetadata reportMetadata true = .ok tree' ∧
            ClientAdded reportMetadata client tree tree' := by
  obtain ⟨tree, htree⟩ := exists_ofMetadata_reports
  have hd : DistinctNames reportMetadata := singleClaims_reports.1
  exact ⟨resolve_reportDocument, hd, tree, htree, client_addition resolve_reportDocument hd htree⟩

end Reports

end Emit
end ApiContract
