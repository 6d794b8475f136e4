import ApiContract.Proofs.Paths
import ApiContract.Proofs.RequestDispatch

/-!
# The models that contracts and controllers name

**Input:** the methods of a contract and the handlers of a controller, as data.

Generated code names models by their paths (`modelPath`) only.  Beside the models, a path that
begins with `super` is an import of one of the modules `models` and `server`.

**Results:** one lemma for each piece of code, which says that all its paths are allowed (`Fits`) if
the models in it are; from these

* `fits_contractModule`: the module of the contract names what its methods take and give;
* `fits_controllerModule`: the module of the controller names what its handlers read and write.
-/

namespace ApiContract
namespace Emit

open Code (Fits flat word literal braces parens commas docAttr docAttrs pathWords)

variable {w : String} {allowed : String → Prop} {o : Bool}

/-! ## Paths and types -/

/-- The word with which a path to a model begins. -/
def Scope.pathWord : Scope → String
  | .models => "super"
  | .sibling => "models"

section Types

theorem fits_modelPath (scope : Scope) {x : String} (hx : w = scope.pathWord → allowed x) :
    Fits w allowed true (modelPath scope x) o := by
  refine Fits.closed fun p hp => ?_
  have hpath : modelPath scope x =
      [.word scope.pathWord, .mark ':', .mark ':', .word x] := by
    cases scope <;> rfl
  rw [hpath]
  by_cases hword : scope.pathWord = w
  · have hallowed := hx hword.symm
    revert p
    simp [hword, Code.places, Code.placeAfter, Code.pathsFrom, Code.Place.after, Code.Place.named,
      hallowed]
  · revert p
    simp [hword, Code.places, Code.placeAfter, Code.pathsFrom, Code.Place.after, Code.Place.named]

theorem CodeType.fits (hw : w ∈ pathWords) (scope : Scope) (t : CodeType)
    (ht : ∀ x ∈ t.models, w = scope.pathWord → allowed x) :
    Fits w allowed false (t.code scope) o := by
  induction t generalizing o with
  | scalar q => cases q <;> exact (Fits.flat hw (by decide)).anywhere
  | model name => exact (fits_modelPath scope (ht name (by simp [models]))).anywhere
  | file => exact .rooted hw (by decide)
  | dynamicMap => exact .rooted hw (by decide)
  | list t ih => exact ((Fits.flat hw (by decide)).append (.angles (ih ht))).anywhere
  | boxed t ih => exact ((Fits.flat hw (by decide)).append (.angles (ih ht))).anywhere
  | optional t ih => exact ((Fits.flat hw (by decide)).append (.angles (ih ht))).anywhere

end Types

section Templates

variable (hw : w ∈ pathWords)

include hw

theorem fits_docAttr (s : String) : Fits w allowed true (docAttr s) o := by
  have hdoc : Fits w allowed true (flat "doc =" ++ literal s) true :=
    (Fits.flat hw (by decide)).append (.literal s)
  exact (Fits.flat hw (by decide)).append (.brackets hdoc.anywhere)

theorem fits_docAttrs (s : String) : Fits w allowed true (docAttrs s) true :=
  Fits.flatMap fun _ _ => fits_docAttr hw _

/-- The function that reads a scalar, behind a comma or a bracket. -/
theorem fits_scalarReader (q : Primitive) : Fits w allowed false (flat (scalarReader q)) o := by
  cases q <;> exact .rooted hw (by decide)

/-! ## The contract -/

theorem ContractParam.fits (p : ContractParam) (hp : ∀ x ∈ p.type.models, w = "models" →
    allowed x) :
    Fits w allowed true p.code o :=
  (Fits.label hw p.ident (by decide)).append (CodeType.fits hw .sibling p.type hp)

theorem fits_paramsCode (ps : List ContractParam)
    (hps : ∀ p ∈ ps, ∀ x ∈ p.type.models, w = "models" → allowed x) :
    Fits w allowed true (paramsCode ps) o := by
  have hcommas : Fits w allowed false (commas (ps.map (·.code))) true := by
    refine Fits.commas fun c hc => ?_
    obtain ⟨p, hp, rfl⟩ := List.mem_map.1 hc
    exact (p.fits hw (hps p hp)).anywhere
  exact Fits.flat hw (by decide)
    |>.append hcommas
    |>.append (.flat hw (by decide))

theorem ContractMethod.fits (c : ContractMethod) (hresponse : w = "models" → allowed c.response)
    (hparams : ∀ p ∈ c.params, ∀ x ∈ p.type.models, w = "models" → allowed x) :
    Fits w allowed true c.code o :=
  fits_docAttrs hw _
    |>.append (.flat hw (by decide))
    |>.append (.word _)
    |>.append (fits_paramsCode hw c.params hparams)
    |>.append (.flat hw (by decide))
    |>.append (fits_modelPath .sibling hresponse)
    |>.append (.flat hw (by decide))

/-- The import of the models is the path to their module. -/
theorem fits_modelsImport (m : Metadata) (hmodels : w = "super" → allowed "models") :
    Fits w allowed true (modelsImport m) true := by
  have hcode : flat "use super::models;" = flat "use" ++ modelPath .models "models" ++ flat ";" :=
    rfl
  refine Fits.ite .nil ?_
  rw [hcode]
  exact Fits.flat hw (by decide)
    |>.append (fits_modelPath .models hmodels)
    |>.append (.flat hw (by decide))

/-! ## Handlers -/

theorem ParamRead.fits (r : ParamRead) : Fits w allowed true r.code o := by
  have hraw : Fits w allowed false (rawCode r) true := by
    unfold rawCode
    cases r.location with
    | path =>
        exact (Fits.flat hw (by decide)
          |>.append (.literal _)
          |>.append (.flat hw (by decide))).anywhere
    | query =>
        exact (Fits.flat hw (by decide)
          |>.append (.literal _)
          |>.append (.flat hw (by decide))).anywhere
    | header =>
        exact Fits.rooted hw (by decide)
          |>.append (.literal _)
          |>.append (.flat hw (by decide))
  have hcommas : Fits w allowed false
      (commas [literal r.wire, rawCode r, flat (scalarReader r.scalar)]) true := by
    refine Fits.commas ?_
    simp only [List.mem_cons, List.not_mem_nil, or_false, forall_eq_or_imp, forall_eq]
    exact ⟨(Fits.literal _).anywhere, hraw, fits_scalarReader hw _⟩
  have hread : Fits w allowed false (flat (if r.required then "::bindery::read_required_param"
      else "::bindery::read_optional_param")) true := by
    split
    · exact .rooted hw (by decide)
    · exact .rooted hw (by decide)
  exact Fits.between hw (by decide) r.binding (by decide)
    |>.append hread
    |>.append (.parens hcommas)
    |>.append (.flat hw (by decide))

/-- A received file becomes the model of received files. -/
theorem FieldRead.fits (f : FieldRead) (hupload : w = "models" → allowed uploadModel) :
    Fits w allowed true f.code o := by
  have hstart : ∀ o, Fits w allowed true (flat "let" ++ word f.binding ++ flat "=") o := fun _ =>
    Fits.between hw (by decide) f.binding (by decide)
  have hscalar : ∀ {s : String} (q : Primitive), Code.Quiet (Code.places true) (flat s) →
      Fits w allowed true (flat "let" ++ word f.binding ++ flat "=" ++ flat s ++ literal f.wire ++
        flat "," ++ flat (scalarReader q) ++ flat ")?;") o := fun q hs =>
    hstart true
      |>.append (.flat hw hs)
      |>.append (.literal _)
      |>.append (.flat hw (by decide))
      |>.append (fits_scalarReader hw q)
      |>.append (.flat hw (by decide))
  have hpath : ∀ o, Fits w allowed true (modelPath .sibling uploadModel) o := fun _ =>
    fits_modelPath .sibling hupload
  unfold FieldRead.code
  cases f.kind with
  | scalar q =>
      cases f.required with
      | true => exact hscalar q (by decide)
      | false => exact hscalar q (by decide)
  | file =>
      cases f.required with
      | true =>
          have hcode : flat "models::FileUpload::from(form.required_file(" =
            modelPath .sibling uploadModel ++ flat "::from(form.required_file(" := rfl
          dsimp only
          rw [hcode]
          exact hstart true
            |>.append ((hpath false).append (.rooted hw (by decide)))
            |>.append (.literal _)
            |>.append (.flat hw (by decide))
      | false =>
          have hcode : flat ", &mut cleanup).await?.map(models::FileUpload::from);" =
            flat ", &mut cleanup).await?.map(" ++ (modelPath .sibling uploadModel ++
              flat "::from);") := rfl
          dsimp only
          rw [hcode]
          exact hstart true
            |>.append (.flat hw (by decide))
            |>.append (.literal _)
            |>.append ((Fits.flat hw (by decide)).append
              ((hpath false).append (.rooted hw (by decide))))

/-- A form becomes the model of its record. -/
theorem FormRead.fits (f : FormRead) {source : String}
    (hs : source ∈ ["read_form", "read_multipart"])
    (hrecord : w = "models" → allowed f.record) (hupload : w = "models" → allowed uploadModel) :
    Fits w allowed true (f.code source) o := by
  have hsource : Fits w allowed true (flat "let form = ::bindery::" ++ flat source) true := by
    simp only [List.mem_cons, List.not_mem_nil, or_false] at hs
    rcases hs with rfl | rfl
    · exact .of_quiet hw (by decide)
    · exact .of_quiet hw (by decide)
  have hfields : Fits w allowed false
      (commas (f.fields.map fun g => word g.ident ++ flat ":" ++ word g.binding)) true := by
    refine Fits.commas fun c hc => ?_
    obtain ⟨g, -, rfl⟩ := List.mem_map.1 hc
    exact ((Fits.label hw g.ident (by decide)).append (.word _)).anywhere
  exact hsource
    |>.append (.flat hw (by decide))
    |>.append (Fits.flatMap fun g _ => g.fits hw hupload)
    |>.append (.flat hw (by decide))
    |>.append (fits_modelPath .sibling hrecord)
    |>.append (.braces hfields)
    |>.append (.flat hw (by decide))

/-- The models that an arm reads a body into. -/
def BodyArm.Allows (w : String) (allowed : String → Prop) (a : BodyArm) : Prop :=
  ∀ g, a.read.form? = some g → w = "models" → allowed g.record

theorem BodyArm.fits (a : BodyArm) {className : String} {required : Bool}
    (hclass : w = "models" → allowed className) (hform : a.Allows w allowed)
    (hupload : w = "models" → allowed uploadModel) :
    Fits w allowed true (a.code className required) o := by
  have hattempt : ∀ {body : Code}, Fits w allowed false body true →
      Fits w allowed false (flat "::bindery::valid_body(async" ++ braces body ++ flat ".await)?")
        true := fun hbody =>
    Fits.rooted hw (by decide)
      |>.append (.braces hbody)
      |>.append (.flat hw (by decide))
  have haccept : ∀ {value : Code}, Fits w allowed false value true →
      Fits w allowed true (flat "Ok::<_, ::bindery::BodyError>(" ++
        (modelPath .sibling className ++ flat "::" ++ word a.media.tag) ++ braces value ++
          flat ")") true := fun hvalue =>
    Fits.flat hw (by decide)
      |>.append ((fits_modelPath .sibling hclass).segment _)
      |>.append (.braces hvalue)
      |>.append (.flat hw (by decide))
  have hrecord : ∀ (g : FormRead), a.read.form? = some g → ∀ source,
      source ∈ ["read_form", "read_multipart"] → Fits w allowed false
        (g.code source ++ (flat "Ok::<_, ::bindery::BodyError>(" ++
          (modelPath .sibling className ++ flat "::" ++ word a.media.tag) ++
            braces (word a.member ++ flat ": record") ++ flat ")")) true := by
    intro g hg source hs
    have hvalue : Fits w allowed false (word a.member ++ flat ": record") true :=
      (Fits.label hw a.member (by decide)).anywhere
    exact ((g.fits hw hs (hform g hg) hupload).append (haccept hvalue)).anywhere
  have hdecode : Fits w allowed false (a.decodeCode className) true := by
    unfold decodeCode
    cases hread : a.read with
    | json =>
        exact hattempt (haccept (Fits.label hw a.member (by decide)).anywhere).anywhere
    | xml =>
        exact Fits.rooted hw (by decide)
          |>.append (.literal _)
          |>.append (.flat hw (by decide))
    | form g => exact hattempt (hrecord g (by rw [hread]; rfl) _ (by simp))
    | multipart g => exact hattempt (hrecord g (by rw [hread]; rfl) _ (by simp))
  have hsome : Fits w allowed true (flat "Some" ++ parens (a.decodeCode className)) true :=
    (Fits.flat hw (by decide)).append (.parens hdecode)
  exact Fits.flat hw (by decide)
    |>.append (.literal _)
    |>.append (.flat hw (by decide))
    |>.append (Fits.ite hdecode hsome.anywhere)
    |>.append (.flat hw (by decide))

theorem BodyDispatch.fits (b : BodyDispatch) (hclass : w = "models" → allowed b.className)
    (hforms : ∀ a ∈ b.arms, a.Allows w allowed) (hupload : w = "models" → allowed uploadModel) :
    Fits w allowed true b.code o := by
  have hmissing : Fits w allowed true (if b.required then [] else flat "None => None,") true :=
    Fits.ite .nil (.flat hw (by decide))
  have harms : Fits w allowed true (b.arms.flatMap (·.code b.className b.required)) true :=
    Fits.flatMap fun a ha => a.fits hw hclass (hforms a ha) hupload
  have hall : Fits w allowed true (b.arms.flatMap (·.code b.className b.required) ++
      (if b.required then [] else flat "None => None,") ++
        flat "_ => return Err(::bindery::RequestError::NoBodyFound.into()),") true :=
    harms
      |>.append hmissing
      |>.append (.flat hw (by decide))
  exact Fits.flat hw (by decide)
    |>.append (.braces hall.anywhere)
    |>.append (.flat hw (by decide))

theorem HeaderWrite.fits (h : HeaderWrite) (binding : String) :
    Fits w allowed true (h.code binding) o := by
  have hsource : Fits w allowed true (flat "&" ++ word binding ++ flat "." ++ word h.field) true :=
    (Fits.between hw (by decide) binding (by decide)).append (.word _)
  have hvalue : Fits w allowed true (flat "writer.header(" ++ literal h.wire ++
      flat ", value)?;") true :=
    Fits.flat hw (by decide)
      |>.append (.literal _)
      |>.append (.flat hw (by decide))
  refine Fits.ite ?_ ?_
  · exact Fits.flat hw (by decide)
      |>.append (.literal _)
      |>.append (.flat hw (by decide))
      |>.append hsource
      |>.append (.flat hw (by decide))
  · exact Fits.flat hw (by decide)
      |>.append hsource
      |>.append (.braces hvalue.anywhere)

theorem StatusSource.fits (s : StatusSource) : Fits w allowed true s.code true := by
  cases s with
  | fixed n => exact .word _
  | body binding => exact .between hw (by decide) binding (by decide)

omit hw in
/-- What is bound by a pattern or given to a variant, if it is anything. -/
theorem fits_bindings (names : List String) :
    Fits w allowed true (if names.isEmpty then [] else braces (commas (names.map word))) true := by
  refine Fits.ite .nil (.braces (.commas fun c hc => ?_))
  obtain ⟨n, -, rfl⟩ := List.mem_map.1 hc
  exact (Fits.word n).anywhere

theorem DispatchArm.fits (a : DispatchArm) {className : String}
    (hclass : w = "models" → allowed className) : Fits w allowed true (a.code className) o := by
  have hmut : Fits w allowed true (if a.headers.isEmpty then [] else flat "mut") true :=
    Fits.ite .nil (.flat hw (by decide))
  have hheaders : Fits w allowed true (a.headers.flatMap (·.code a.headersBinding)) true :=
    Fits.flatMap fun h _ => HeaderWrite.fits hw h _
  unfold code
  refine ((fits_modelPath .sibling hclass).segment a.tag
    |>.append (fits_bindings a.bindings)
    |>.append (.flat hw (by decide))).append (.braces (Fits.anywhere ?_))
  refine Fits.append ?register (.flat hw (by decide))
    |>.append hmut
    |>.append (.flat hw (by decide))
    |>.append (StatusSource.fits hw a.status)
    |>.append (.flat hw (by decide))
    |>.append hheaders
    |>.append ?write
  case register =>
    split
    · exact .between hw (by decide) _ (by decide)
    · exact .nil
  case write =>
    split
    · exact .flat hw (by decide)
    · exact .between hw (by decide) _ (by decide)
    · exact .between hw (by decide) _ (by decide)

theorem Handler.fits_extractors (k : Handler) :
    Fits w allowed false (commas k.extractors) true := by
  have htexts : ∀ {s : String}, Code.Quiet (Code.places false) (flat s) → Fits w allowed false
      (flat s ++ flat "::std::collections::HashMap<String, String>" ++ flat ">") true := fun hs =>
    Fits.rooted hw hs
      |>.append (.rooted hw (by decide))
      |>.append (.flat hw (by decide))
  refine Fits.commas fun c hc => ?_
  simp only [Handler.extractors, List.mem_append, List.mem_singleton, List.mem_ite_nil_right] at hc
  rcases hc with (((rfl | ⟨-, rfl⟩) | ⟨-, rfl⟩) | ⟨-, rfl⟩) | ⟨-, rfl⟩
  · exact .rooted hw (by decide)
  · exact htexts (by decide)
  · exact htexts (by decide)
  · exact (Fits.flat hw (by decide)).anywhere
  · exact (Fits.flat hw (by decide)).anywhere

theorem Handler.fits (k : Handler) (contract : String)
    (hresponse : w = "models" → allowed k.response)
    (hbody : ∀ b, k.body = some b →
      (w = "models" → allowed b.className) ∧ ∀ a ∈ b.arms, a.Allows w allowed)
    (hupload : w = "models" → allowed uploadModel) :
    Fits w allowed true (k.code contract) true := by
  have hsetup : Fits w allowed true (flat (if k.cleansUp then
      "let mut cleanup = ::bindery::CleanupRegistry::new();"
      else "let _cleanup = ::bindery::CleanupRegistry::new();")) true := by
    split
    · exact .flat hw (by decide)
    · exact .flat hw (by decide)
  have hread : Fits w allowed true ((k.body.map (·.code)).getD []) true := by
    cases hb : k.body with
    | none => exact .nil
    | some b => exact b.fits hw (hbody b hb).1 (hbody b hb).2 hupload
  have harguments : Fits w allowed false (commas (k.arguments.map word)) true := by
    refine Fits.commas fun c hc => ?_
    obtain ⟨n, -, rfl⟩ := List.mem_map.1 hc
    exact (Fits.word n).anywhere
  have harms : Fits w allowed true (k.arms.flatMap (·.code k.response)) true :=
    Fits.flatMap fun a _ => a.fits hw hresponse
  have hreads : Fits w allowed true (k.reads.flatMap (·.code)) true :=
    Fits.flatMap fun r _ => r.fits hw
  unfold code
  refine (fits_docAttr hw _
    |>.append (.flat hw (by decide))
    |>.append (.word _)
    |>.append (.flat hw (by decide))
    |>.append (.word _)
    |>.append (.flat hw (by decide))
    |>.append (k.fits_extractors hw)
    |>.append (.flat hw (by decide))).append (.braces (Fits.anywhere ?_))
  exact hsetup
    |>.append hreads
    |>.append hread
    |>.append (.flat hw (by decide))
    |>.append (.word _)
    |>.append (.flat hw (by decide))
    |>.append harguments
    |>.append (.flat hw (by decide))
    |>.append (.braces harms.anywhere)

/-! ## The controller -/

/-- The methods of a route are the functions of one module. -/
theorem Route.fits (r : Route) : Fits w allowed true r.code true := by
  have hentry : ∀ (before : Code) (e : Method × String), Fits w allowed true before false →
      Fits w allowed true (before ++ flat "::" ++ word e.1.name ++ flat "(" ++ word e.2 ++
        flat "::<S>)") true := fun before e hbefore =>
    (hbefore.segment e.1.name
      |>.append (.flat hw (by decide))).labelled hw e.2 (by decide)
  have hmore : ∀ es : List (Method × String), Fits w allowed true (es.flatMap fun e =>
      flat "." ++ (word e.1.name ++ flat "(" ++ word e.2 ++ flat "::<S>)")) true := by
    refine fun es => Fits.flatMap fun e _ => ?_
    exact (Fits.flat hw (by decide)).append
      ((Fits.label hw e.1.name (by decide)).labelled hw e.2 (by decide))
  have hstart : Fits w allowed true (flat ".route(" ++ literal r.path ++ flat ", ::axum::routing")
      false :=
    Fits.flat hw (by decide)
      |>.append (.literal _)
      |>.append (.flat hw (by decide))
  have hend : Fits w allowed true (flat ")") true :=
    .flat hw (by decide)
  have hroot : flat ", ::axum::routing::" = flat ", ::axum::routing" ++ flat "::" := rfl
  unfold code
  cases r.entries with
  | nil =>
      have hlast : Fits w allowed true (flat ", ::axum::routing::" ++ flat ")") true :=
        .of_quiet hw (by decide)
      have hall : Fits w allowed true (flat ".route(" ++ literal r.path ++
          (flat ", ::axum::routing::" ++ flat ")")) true :=
        Fits.flat hw (by decide)
          |>.append (.literal _)
          |>.append hlast
      simpa [List.intercalate] using hall
  | cons e es =>
      have hall := ((hentry _ e hstart).append (hmore es)).append hend
      rw [List.map_cons, Code.intercalate_cons, List.flatMap_map, hroot]
      simpa only [List.append_assoc] using hall

theorem fits_controllerCode (contract controller : String) (rs : List Route) :
    Fits w allowed true (controllerCode contract controller rs) true := by
  have hfunction : ∀ {s : String} {body : Code}, Code.Quiet (Code.places true) (flat s) →
      Fits w allowed true body true → Fits w allowed true (flat s ++ braces body) true :=
    fun hs hbody => (Fits.flat hw hs).append (.braces hbody.anywhere)
  have hshared : Fits w allowed true
      (flat "Self" ++ braces (flat "server: ::std::sync::Arc::clone(&self.server),")) true :=
    hfunction (by decide) (.flat hw (by decide))
  have hself : Fits w allowed true (flat "Self" ++ braces (flat "server")) true :=
    hfunction (by decide) (.flat hw (by decide))
  have hroutes : Fits w allowed false (flat "::axum::Router::new()" ++ rs.flatMap (·.code) ++
      flat ".with_state(self.server)") true :=
    Fits.rooted hw (by decide)
      |>.append (Fits.flatMap fun r _ => r.fits hw)
      |>.append (.flat hw (by decide))
  have hmethods : Fits w allowed true (
      flat "pub fn new(server: S) -> Self" ++
        braces (flat "Self::from_arc(::std::sync::Arc::new(server))") ++
      docAttr " Shares an implementation that is also used elsewhere." ++
        flat "pub fn from_arc(server: ::std::sync::Arc<S>) -> Self" ++
        braces (flat "Self" ++ braces (flat "server")) ++
      docAttr " A router with one route per operation." ++
        flat "pub fn into_router(self) -> ::axum::Router" ++
        braces (flat "::axum::Router::new()" ++ rs.flatMap (·.code) ++
          flat ".with_state(self.server)") ++
      docAttr " Adds every route to an existing router." ++
        flat "pub fn bind(self, router: ::axum::Router) -> ::axum::Router" ++
        braces (flat "router.merge(self.into_router())")) true :=
    hfunction (by decide) (.flat hw (by decide))
      |>.append (fits_docAttr hw _)
      |>.append (.flat hw (by decide))
      |>.append (.braces hself.anywhere)
      |>.append (fits_docAttr hw _)
      |>.append (.flat hw (by decide))
      |>.append (.braces hroutes)
      |>.append (fits_docAttr hw _)
      |>.append (.flat hw (by decide))
      |>.append (.braces (Fits.flat hw (by decide)).anywhere)
  exact Fits.between hw (by decide) controller (by decide)
    |>.append (.braces (Fits.flat hw (by decide)).anywhere)
    |>.append (.flat hw (by decide))
    |>.append (.word _)
    |>.append (.flat hw (by decide))
    |>.append (.braces (hfunction (by decide) hshared).anywhere)
    |>.append (.flat hw (by decide))
    |>.append (.word _)
    |>.append (.flat hw (by decide))
    |>.append (.word _)
    |>.append (.flat hw (by decide))
    |>.append (.braces hmethods.anywhere)

end Templates

/-! ## Modules -/

section Modules

variable {m : Metadata} {s : SourceModule}

/-- Behind the import of the models, the contract names the models of its methods. -/
theorem fits_contractModule (hw : w ∈ pathWords) (h : contractModule m = .ok s)
    (hmethods : ∀ e ∈ m.operations, ∀ c, contractMethod e = .ok c →
      (w = "models" → allowed c.response) ∧
        ∀ p ∈ c.params, ∀ x ∈ p.type.models, w = "models" → allowed x) :
    ∃ rest, s.code = modelsImport m ++ rest ∧ Fits w allowed true rest true := by
  obtain ⟨_, -, h⟩ := bind_eq_ok.1 h
  obtain ⟨cs, hcs, h⟩ := bind_eq_ok.1 h
  obtain rfl := Except.ok.inj h
  have hall : Fits w allowed true (cs.flatMap (·.code)) true := by
    refine Fits.flatMap fun c hc => ?_
    obtain ⟨e, he, hok⟩ := exists_of_mem_right (mapM_eq_ok.1 hcs) hc
    obtain ⟨hresponse, hparams⟩ := hmethods e he c hok
    exact c.fits hw hresponse hparams
  have hbehind : ∀ a b c d e f : Code,
      a ++ b ++ c ++ d ++ e ++ f = a ++ (b ++ c ++ d ++ e ++ f) := by simp
  refine ⟨_, hbehind _ _ _ _ _ _, ?_⟩
  exact (fits_docAttrs hw _
    |>.append (.flat hw (by decide))).labelled hw (contractName m) (by decide)
    |>.append (.braces hall.anywhere)

/-- Behind the import of the models, the controller names the models of its handlers, and imports
the contract. -/
theorem fits_controllerModule (hw : w ∈ pathWords) (h : controllerModule m = .ok s)
    (hserver : w = "super" → allowed "server")
    (hhandlers : ∀ e ∈ m.operations, ∀ k, handler m.refs e = .ok k →
      (w = "models" → allowed k.response) ∧ ∀ b, k.body = some b →
        (w = "models" → allowed b.className) ∧ ∀ a ∈ b.arms, a.Allows w allowed)
    (hupload : w = "models" → allowed uploadModel) :
    ∃ rest, s.code = modelsImport m ++ rest ∧ Fits w allowed true rest true := by
  obtain ⟨_, -, h⟩ := bind_eq_ok.1 h
  obtain ⟨ks, hks, h⟩ := bind_eq_ok.1 h
  obtain rfl := Except.ok.inj h
  have hall : Fits w allowed true (ks.flatMap (·.code (contractName m))) true := by
    refine Fits.flatMap fun k hk => ?_
    obtain ⟨e, he, hok⟩ := exists_of_mem_right (mapM_eq_ok.1 hks) hk
    obtain ⟨hresponse, hbody⟩ := hhandlers e he k hok
    exact k.fits hw _ hresponse hbody hupload
  -- The import of the contract is a path that goes on behind the module `server`.
  have hcode : flat "use super::server::" = flat "use" ++ modelPath .models "server" ++ flat "::" :=
    rfl
  have himport : Fits w allowed true (flat "use super::server::" ++ word (contractName m))
      true := by
    rw [hcode]
    exact ((Fits.flat hw (by decide)).append (fits_modelPath .models hserver)).segment _
  have hbehind : ∀ a b c d e f g : Code,
      a ++ b ++ c ++ d ++ e ++ f ++ g = a ++ (b ++ c ++ d ++ e ++ f ++ g) := by simp
  refine ⟨_, hbehind _ _ _ _ _ _ _, ?_⟩
  exact himport
    |>.append (.flat hw (by decide))
    |>.append (fits_docAttrs hw _)
    |>.append (fits_controllerCode hw _ _ _)
    |>.append hall

end Modules

end Emit
end ApiContract
