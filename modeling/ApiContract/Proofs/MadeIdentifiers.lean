import ApiContract.Emit.Identifiers
import ApiContract.Proofs.Emission
import ApiContract.Proofs.Models

/-!
# Emitters with their identifiers

**Input:** resolved metadata, with or without legal names.

An emitter that is taken step by step together with the identifiers that it makes ends like the
emitter itself: the identifiers are only noted.

**Results:**

* `Making.result_bind`, `Making.result_mapM`: what steps one after another end with;
* `Makes`: a step that makes identifiers of one kind only, with one rule for each way in which steps
  are put together; `Making.run?_eq_some` and `Making.run?_eq_none_iff` tell when it breaks down;
* `Ends`: such a step comes to its end, taken apart into the steps that it is put together from;
* `result_makeContract`, `result_makeController`, `result_makeClient`, `result_makeModels`: the
  emitters step by step end as the emitters do.
-/

namespace ApiContract
namespace Emit

/-! ## Steps -/

namespace Making

variable {α β : Type} {x : Making α} {f : α → Making β} {a : α}

theorem bind_of_ok (h : x.result = .ok a) : x >>= f = ⟨x.made ++ (f a).made, (f a).result⟩ := by
  obtain ⟨made, result⟩ := x
  cases h
  rfl

theorem bind_of_error {e : EmitError} (h : x.result = .error e) : x >>= f = ⟨x.made, .error e⟩ := by
  obtain ⟨made, result⟩ := x
  cases h
  rfl

instance : LawfulMonad Making := by
  refine .mk' Making (fun x => ?_) (fun a f => ?_) (fun x f g => ?_)
  · cases h : x.result with
    | ok a =>
        have hmap : id <$> x = ⟨x.made ++ [], .ok a⟩ := bind_of_ok h
        rw [hmap, List.append_nil, ← h]
    | error e =>
        have hmap : id <$> x = ⟨x.made, .error e⟩ := bind_of_error h
        rw [hmap, ← h]
  · have hpure : (pure a : Making _).result = .ok a := rfl
    rw [bind_of_ok hpure]
    rfl
  · cases hx : x.result with
    | error e =>
        have hbind : (x >>= f).result = .error e := by rw [bind_of_error hx]
        rw [bind_of_error hbind, bind_of_error hx, bind_of_error hx]
    | ok a =>
        have hbind : (x >>= f).result = (f a).result := by rw [bind_of_ok hx]
        cases hf : (f a).result with
        | error e =>
            rw [bind_of_error (hbind.trans hf), bind_of_ok hx, bind_of_ok hx, bind_of_error hf]
        | ok b =>
            rw [bind_of_ok (hbind.trans hf), bind_of_ok hx, bind_of_ok hx, bind_of_ok hf,
              List.append_assoc]

@[simp] theorem result_pure (a : α) : (pure a : Making α).result = pure a :=
  rfl

@[simp] theorem result_quiet (r : Emitting α) : (quiet r).result = r :=
  rfl

@[simp] theorem result_ident (s : String) : (ident s).result = pure s :=
  rfl

@[simp] theorem result_bind (x : Making α) (f : α → Making β) :
    (x >>= f).result = x.result >>= fun a => (f a).result := by
  cases h : x.result with
  | ok a => rw [bind_of_ok h]; rfl
  | error e => rw [bind_of_error h]; rfl

@[simp] theorem result_map (g : α → β) (x : Making α) : (g <$> x).result = g <$> x.result := by
  rw [map_eq_pure_bind, result_bind, map_eq_pure_bind]
  rfl

@[simp] theorem result_mapM (f : α → Making β) (as : List α) :
    (as.mapM f).result = as.mapM fun a => (f a).result := by
  induction as with
  | nil => rfl
  | cons a as ih => simp only [List.mapM_cons, result_bind, result_pure, ih]

end Making

/-! ## Steps that make identifiers of one kind -/

/-- A step that makes identifiers of one kind only, also if it fails. -/
def Makes {α : Type} (p : String → Prop) (x : Making α) : Prop :=
  ∀ i ∈ x.made, p i

namespace Makes

variable {α β : Type} {p q : String → Prop} {x : Making α} {f : α → Making β} {a : α} {as : List α}

theorem mono (hx : Makes p x) (hpq : ∀ i, p i → q i) : Makes q x :=
  fun i hi => hpq i (hx i hi)

theorem quiet (r : Emitting α) : Makes p (Making.quiet r) :=
  List.forall_mem_nil p

theorem pure : Makes p (Pure.pure a : Making α) :=
  List.forall_mem_nil p

theorem ident {s : String} (hs : p s) : Makes p (Making.ident s) :=
  List.forall_mem_singleton.2 hs

/-- The second step counts only with what the first one ends with. -/
theorem bind (hx : Makes p x) (hf : ∀ a, x.result = .ok a → Makes p (f a)) : Makes p (x >>= f) := by
  cases h : x.result with
  | error e =>
      rw [Making.bind_of_error h]
      exact hx
  | ok a =>
      rw [Making.bind_of_ok h]
      exact List.forall_mem_append.2 ⟨hx, hf a h⟩

theorem map {g : α → β} (hx : Makes p x) : Makes p (g <$> x) := by
  rw [map_eq_pure_bind]
  exact hx.bind fun _ _ => pure

theorem mapM (hf : ∀ a ∈ as, Makes p (f a)) : Makes p (as.mapM f) := by
  induction as with
  | nil => exact pure
  | cons a as ih =>
      obtain ⟨ha, has⟩ := List.forall_mem_cons.1 hf
      rw [List.mapM_cons]
      exact ha.bind fun _ _ => (ih has).bind fun _ _ => pure

theorem type {r : Emitting CodeType} (hr : ∀ t, r = .ok t → ∀ i ∈ t.models, p i) :
    Makes p (makeType r) := by
  cases r with
  | error e => exact List.forall_mem_nil p
  | ok t => exact hr t rfl

end Makes

namespace Making

variable {α β : Type} {x : Making α} {f : α → Making β} {b : β}

/-- A step that ends well has gone through both of its parts. -/
theorem bind_result_eq_ok :
    (x >>= f).result = .ok b ↔ ∃ a, x.result = .ok a ∧ (f a).result = .ok b := by
  rw [result_bind, bind_eq_ok]

theorem run?_eq_some {accepts : String → Bool} (h : Makes (accepts · = true) x) :
    x.run? accepts = some x.result :=
  if_pos (List.all_eq_true.2 h)

theorem run?_eq_none_iff {accepts : String → Bool} :
    x.run? accepts = none ↔ ∃ i ∈ x.made, accepts i = false := by
  unfold run?
  split
  · rename_i hall
    simpa using hall
  · rename_i hall
    simpa using hall

end Making

/-! ## Steps that come to their end -/

/-- A step that makes identifiers of one kind only ends with a value. -/
def Ends {α : Type} (p : String → Prop) (x : Making α) (a : α) : Prop :=
  Makes p x ∧ x.result = .ok a

namespace Ends

variable {α β : Type} {p : String → Prop} {x : Making α} {f : α → Making β} {a : α} {b : β}

/-- A step that ends well makes what it makes, and nothing else. -/
theorem of_result (h : x.result = .ok a) : Ends (· ∈ x.made) x a :=
  ⟨fun _ hi => hi, h⟩

theorem pure_iff {c : α} : Ends p (Pure.pure c) a ↔ c = a := by
  constructor
  · rintro ⟨-, h⟩
    exact Except.ok.inj h
  · rintro rfl
    exact ⟨.pure, rfl⟩

theorem quiet_iff {r : Emitting α} : Ends p (Making.quiet r) a ↔ r = .ok a :=
  ⟨fun h => h.2, fun h => ⟨.quiet r, h⟩⟩

theorem ident_iff {s t : String} : Ends p (Making.ident s) t ↔ p s ∧ s = t := by
  constructor
  · rintro ⟨hmakes, h⟩
    exact ⟨List.forall_mem_singleton.1 hmakes, Except.ok.inj h⟩
  · rintro ⟨hs, rfl⟩
    exact ⟨.ident hs, rfl⟩

theorem type_iff {r : Emitting CodeType} {c : CodeType} :
    Ends p (makeType r) c ↔ r = .ok c ∧ ∀ i ∈ c.models, p i := by
  cases r with
  | error e => exact ⟨fun h => (nomatch h.2), fun h => (nomatch h.1)⟩
  | ok t =>
      constructor
      · rintro ⟨hmakes, h⟩
        obtain rfl := Except.ok.inj h
        exact ⟨rfl, hmakes⟩
      · rintro ⟨h, hmodels⟩
        obtain rfl := Except.ok.inj h
        exact ⟨hmodels, rfl⟩

/-- Steps one after another come to their end if each of them does. -/
theorem bind_iff : Ends p (x >>= f) b ↔ ∃ a, Ends p x a ∧ Ends p (f a) b := by
  constructor
  · rintro ⟨hmakes, h⟩
    obtain ⟨a, ha, hb⟩ := Making.bind_result_eq_ok.1 h
    rw [Making.bind_of_ok ha] at hmakes
    obtain ⟨hx, hf⟩ := List.forall_mem_append.1 hmakes
    exact ⟨a, ⟨hx, ha⟩, hf, hb⟩
  · rintro ⟨a, ⟨hx, ha⟩, hf, hb⟩
    refine ⟨hx.bind fun c hc => ?_, Making.bind_result_eq_ok.2 ⟨a, ha, hb⟩⟩
    obtain rfl := Except.ok.inj (ha.symm.trans hc)
    exact hf

theorem map_iff {g : α → β} : Ends p (g <$> x) b ↔ ∃ a, Ends p x a ∧ g a = b := by
  simp only [map_eq_pure_bind, bind_iff, pure_iff]

theorem mapM_iff {as : List α} {bs : List β} :
    Ends p (as.mapM f) bs ↔ List.Forall₂ (fun a b => Ends p (f a) b) as bs := by
  induction as generalizing bs with
  | nil => rw [List.mapM_nil, pure_iff, List.forall₂_nil_left_iff, eq_comm]
  | cons a as ih =>
      rw [List.mapM_cons, List.forall₂_cons_left_iff, bind_iff]
      constructor
      · rintro ⟨b, hb, h⟩
        obtain ⟨rest, hrest, h⟩ := bind_iff.1 h
        exact ⟨b, rest, hb, ih.1 hrest, (pure_iff.1 h).symm⟩
      · rintro ⟨b, rest, hb, hrest, rfl⟩
        exact ⟨b, hb, bind_iff.2 ⟨rest, ih.2 hrest, pure_iff.2 rfl⟩⟩

/-- Identifiers of texts, one after another. -/
theorem idents_iff {g : α → String} {as : List α} {is : List String} :
    Ends p (as.mapM fun a => Making.ident (g a)) is ↔ (∀ a ∈ as, p (g a)) ∧ as.map g = is := by
  induction as generalizing is with
  | nil => simp [pure_iff]
  | cons a as ih =>
      rw [List.mapM_cons, List.forall_mem_cons, List.map_cons]
      simp only [bind_iff, ident_iff, pure_iff, ih]
      constructor
      · rintro ⟨_, ⟨ha, rfl⟩, _, ⟨has, rfl⟩, rfl⟩
        exact ⟨⟨ha, has⟩, rfl⟩
      · rintro ⟨⟨ha, has⟩, rfl⟩
        exact ⟨_, ⟨ha, rfl⟩, _, ⟨has, rfl⟩, rfl⟩

end Ends

/-! ## Emitters -/

section Results

variable {refs : RefTable} {o : Operation}

@[simp] theorem result_makeType (r : Emitting CodeType) : (makeType r).result = r := by
  cases r <;> rfl

theorem map_eq {ε α β : Type} (g : α → β) (x : Except ε α) : x.map g = g <$> x :=
  rfl

theorem result_makeParamsAfter (done : List ContractParam) (ps : List Param) :
    (makeParamsAfter o done ps).result = paramsAfter o done ps := by
  induction ps generalizing done with
  | nil => rfl
  | cons p ps ih =>
      rw [makeParamsAfter, paramsAfter]
      simp only [Making.result_bind, Making.result_quiet, Making.result_ident, pure_bind]
      congr 1
      funext q
      split
      · rfl
      · exact ih _

@[simp] theorem result_makeContractParams (o : Operation) :
    (makeContractParams o).result = contractParams o := by
  unfold makeContractParams contractParams
  cases h : o.requestBody <;> simp [result_makeParamsAfter]

@[simp] theorem result_makeContractMethod (o : Operation) :
    (makeContractMethod o).result = contractMethod o := by
  simp [makeContractMethod, contractMethod]

@[simp] theorem result_makeParamRead (o : Operation) (p : Param) :
    (makeParamRead o p).result = paramRead o p := by
  simp [makeParamRead, paramRead]

@[simp] theorem result_makeFieldRead (refs : RefTable) (multipart : Bool) (p : Property) :
    (makeFieldRead refs multipart p).result = fieldRead refs multipart p := by
  simp [makeFieldRead]

@[simp] theorem result_makeFormRead (refs : RefTable) (multipart : Bool) (t : Descriptor) :
    (makeFormRead refs multipart t).result = formRead refs multipart t := by
  simp [makeFormRead, formRead]

@[simp] theorem result_makeBodyArm (refs : RefTable) (m : Media) (t : Descriptor) :
    (makeBodyArm refs m t).result = bodyArm refs m t := by
  cases m <;> simp [makeBodyArm, bodyArm, map_eq]

@[simp] theorem result_makeBodyDispatch (refs : RefTable) (b : RequestBody) :
    (makeBodyDispatch refs b).result = bodyDispatch refs b := by
  simp [makeBodyDispatch, bodyDispatch]

@[simp] theorem result_makeDispatchArm (o : Operation) (s : Status) (v : Variant) :
    (makeDispatchArm o s v).result = dispatchArm o s v := by
  obtain ⟨name, headers, payload⟩ := v
  rcases payload with _ | ⟨t, _ | _⟩ <;> cases headers <;>
    simp [makeDispatchArm, dispatchArm, makeHeaderWrites]

@[simp] theorem result_makeHandler (refs : RefTable) (o : Operation) :
    (makeHandler refs o).result = handler refs o := by
  unfold makeHandler handler
  cases h : o.requestBody <;> simp [map_eq]

@[simp] theorem result_makeEncodeArm (refs : RefTable) (m : Media) (t : Descriptor) :
    (makeEncodeArm refs m t).result = encodeArm refs m t := by
  cases m <;> simp [makeEncodeArm, encodeArm]

@[simp] theorem result_makeBodyEncode (refs : RefTable) (b : RequestBody) :
    (makeBodyEncode refs b).result = bodyEncode refs b := by
  simp [makeBodyEncode, bodyEncode]

@[simp] theorem result_makeHeaderRead (p : Property) :
    (makeHeaderRead p).result = headerRead p := by
  simp [makeHeaderRead]

@[simp] theorem result_makeDecodeArm (refs : RefTable) (s : Status) (v : Variant) :
    (makeDecodeArm refs s v).result = decodeArm refs s v := by
  obtain ⟨name, headers, payload⟩ := v
  rcases payload with _ | ⟨t, _ | _⟩ <;> cases headers <;> cases s <;>
    simp [makeDecodeArm, decodeArm, makeHeaderReads, makeResponseRead, map_eq]

@[simp] theorem result_makeClientMethod (refs : RefTable) (o : Operation) :
    (makeClientMethod refs o).result = clientMethod refs o := by
  unfold makeClientMethod clientMethod
  cases h : o.requestBody <;> simp [map_eq]

@[simp] theorem result_makeField (refs : RefTable) (p : Property) :
    (makeField refs p).result = fieldOf refs p := by
  simp [makeField, fieldOf]

@[simp] theorem result_makeRecord (refs : RefTable) (name : String) (ps : List Property) :
    (makeRecord refs name ps).result = recordShape refs ps := by
  unfold makeRecord recordShape
  split <;> simp [*, map_eq]
  rfl

@[simp] theorem result_makeMember (refs : RefTable) (t : Descriptor) :
    (makeMember refs t).result = memberOf refs t := by
  simp [makeMember, memberOf]

@[simp] theorem result_makeSum (refs : RefTable) (name : String)
    (vs : List (String × List Descriptor)) : (makeSum refs name vs).result = sumShape refs vs := by
  simp [makeSum, sumShape, makeSumVariant, map_eq]

end Results

/-! ## Models -/

section Models

variable {refs : RefTable}

/-- The models step by step are those that are claimed. -/
theorem makeModel?_eq (refs : RefTable) (t : Descriptor) :
    (makeModel? refs t).map (fun e => (e.1, e.2.result)) = modelOf? refs t := by
  unfold makeModel? modelOf?
  split <;> simp [wrapperShape]

theorem run_collecting_bind {α β : Type} (x : Collecting α) (f : α → Collecting β)
    (c : Collection) :
    (x >>= f).run.run c =
      match x.run.run c with
      | (.ok a, c') => (f a).run.run c'
      | (.error e, c') => (.error e, c') := by
  rw [ExceptT.run_bind, StateT.run_bind]
  cases x.run.run c with
  | mk r c' => cases r <;> rfl

/-- What a claim comes to once the model with the name has been looked for. -/
def claimAfter (name : String) (t : Descriptor) (shape : Emitting ModelShape) :
    Option Model → Collecting Unit
  | some m =>
    if !m.descriptor.any (·.alike t) then
      modify fun c => { c with warnings := c.warnings ++ [.nameTaken name] }
    else pure ()
  | none => do
    let shape ← ExceptT.mk (pure shape)
    modify fun c => { c with models := c.models ++ [⟨name, some t, shape⟩] }

/-- Claiming a name leaves the models that are there or adds one, or ends in the error of its
shape. -/
theorem run_claim (name : String) (t : Descriptor) (shape : Emitting ModelShape) (c : Collection) :
    if c.models.any (·.name == name) then
      ∃ c', (claim name t shape).run.run c = (.ok (), c') ∧ c'.models = c.models
    else
      match shape with
      | .ok s => ∃ c', (claim name t shape).run.run c = (.ok (), c') ∧
          c'.models = c.models ++ [⟨name, some t, s⟩]
      | .error e => ∃ c', (claim name t shape).run.run c = (.error e, c') := by
  have hget : (claim name t shape).run.run c =
      (claimAfter name t shape (c.models.find? (·.name == name))).run.run c := rfl
  rw [hget]
  cases hfind : c.models.find? (·.name == name) with
  | some m =>
      have hany : c.models.any (·.name == name) = true :=
        List.any_eq_true.2 ⟨m,
          List.mem_of_find?_eq_some hfind, by simpa using List.find?_some hfind⟩
      rw [if_pos hany, claimAfter]
      split
      · exact ⟨_, rfl, rfl⟩
      · exact ⟨_, rfl, rfl⟩
  | none =>
      have hany : ¬ c.models.any (·.name == name) = true := by
        simpa using List.find?_eq_none.1 hfind
      rw [if_neg hany]
      cases shape with
      | ok s => exact ⟨_, rfl, rfl⟩
      | error e => exact ⟨_, rfl⟩

/-- Claiming names one after another ends as making the models does, and with the same models. -/
theorem run_forM_claimPart (ts : List Descriptor) (c : Collection) :
    (((ts.forM (claimPart refs)).run.run c).1.map
      fun _ => ((ts.forM (claimPart refs)).run.run c).2.models) =
        (makeModelsAfter refs c.models ts).result := by
  induction ts generalizing c with
  | nil => rfl
  | cons t ts ih =>
      have hcons : (t :: ts).forM (claimPart refs) = claimPart refs t >>= fun _ =>
          ts.forM (claimPart refs) := rfl
      have hmodel := makeModel?_eq refs t
      rw [hcons, run_collecting_bind, makeModelsAfter, claimPart, ← hmodel]
      cases makeModel? refs t with
      | none => exact ih c
      | some e =>
          obtain ⟨name, shape⟩ := e
          have hclaim := run_claim name t shape.result c
          simp only [Option.map_some]
          split at hclaim
          · rename_i htaken
            obtain ⟨c', hrun, hmodels⟩ := hclaim
            rw [hrun, if_pos htaken, ← hmodels]
            exact ih c'
          · rename_i hfree
            rw [if_neg hfree, Making.result_bind]
            cases hshape : shape.result with
            | ok s =>
                rw [hshape] at hclaim
                obtain ⟨c', hrun, hmodels⟩ := hclaim
                rw [hrun]
                have hrest := ih c'
                rw [hmodels] at hrest
                exact hrest
            | error e =>
                rw [hshape] at hclaim
                obtain ⟨c', hrun⟩ := hclaim
                rw [hrun]
                rfl

end Models

/-! ## Modules -/

section Modules

/-- Two steps that are taken once more change nothing. -/
theorem bind_again {α β γ : Type} (x : Emitting α) (y : Emitting β) (f : α → β → Emitting γ) :
    (x >>= fun _ => y >>= fun _ => x >>= fun a => y >>= f a) = x >>= fun a => y >>= f a := by
  cases x with
  | error e => rfl
  | ok a =>
      cases y with
      | error e => rfl
      | ok b => rfl

variable (m : Metadata)

/-- The contract step by step ends as it does at once; likewise the others. -/
theorem result_makeContract : (makeContract m).result = contractModule m := by
  simp only [makeContract, Making.result_bind, Making.result_quiet, Making.result_ident,
    Making.result_mapM, result_makeContractMethod, pure_bind]
  exact bind_again _ _ _

theorem result_makeController : (makeController m).result = controllerModule m := by
  simp only [makeController, Making.result_bind, Making.result_quiet, Making.result_ident,
    Making.result_mapM, result_makeHandler, pure_bind, List.mapM_pure]
  exact bind_again _ _ _

theorem result_makeClient : (makeClient m).result = clientModule m := by
  simp only [makeClient, Making.result_bind, Making.result_quiet, Making.result_ident,
    Making.result_mapM, result_makeClientMethod, pure_bind]
  exact bind_again _ _ _

/-- The models of metadata with legal names, made step by step. -/
theorem result_makeModelsAfter {m : Metadata} (hcheck : checkNames m = .ok ()) :
    (makeModelsAfter m.refs [upload] (allParts m)).result = (models m).1 := by
  rw [models_of_claims hcheck rfl]
  exact (run_forM_claimPart (allParts m) { models := [upload] }).symm

theorem result_makeModels : (makeModels m).result = (modelModules m).1 := by
  have hmodules : (modelModules m).1 =
      (models m).1.map fun ms => exportModule ms :: ms.map (·.sourceModule) := rfl
  cases hcheck : checkNames m with
  | error e =>
      have hmodels : (models m).1 = .error e := by
        rw [models_eq, collecting, hcheck]
        rfl
      rw [hmodules, hmodels, makeModels, Making.result_bind, Making.result_quiet, hcheck]
      rfl
  | ok u =>
      have hmade := result_makeModelsAfter hcheck
      rw [upload] at hmade
      simp only [makeModels, Making.result_bind, Making.result_quiet, Making.result_ident,
        Making.result_mapM, pure_bind, hcheck, List.mapM_pure]
      unfold allParts at hmade
      rw [hmade, hmodules]
      cases (models m).1 with
      | error e => rfl
      | ok ms => rfl

end Modules

end Emit
end ApiContract
