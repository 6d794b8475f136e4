import ApiContract.Proofs.ServerPaths

/-!
# The models that clients and models name

**Input:** the methods of a client, and models, as data.

**Results:** one lemma for each piece of code, which says that all its paths are allowed (`Fits`) if
the models in it are; from these

* `fits_clientModule`: the module of the client names what its methods send and receive;
* `Model.fits`: the module of a model names what its fields and variants hold.
-/

namespace ApiContract
namespace Emit

open Code (Fits flat word literal braces parens commas docAttrs pathWords)

variable {w : String} {allowed : String → Prop} {o : Bool}

/-- The models that a model is made of. -/
def ModelShape.models : ModelShape → List String
  | .upload => []
  | .openRecord => []
  | .record fields => fields.flatMap (·.type.models)
  | .sum vs => vs.flatMap fun v => v.members.flatMap (·.2.models)

section Templates

variable (hw : w ∈ pathWords)

include hw

/-! ## Requests -/

theorem SentParam.fits (p : SentParam) : Fits w allowed true p.code true := by
  unfold code
  extract_lets send
  have hsend : ∀ value : Code, Fits w allowed true value true →
      Fits w allowed true (send value) true := by
    intro value hvalue
    simp only [send]
    cases p.location with
    | path =>
        have htext : Fits w allowed true (value ++ flat ".to_string()") true :=
          hvalue.append (.flat hw (by decide))
        refine .parens (.commas ?_)
        simp only [List.mem_cons, List.not_mem_nil, or_false, forall_eq_or_imp, forall_eq]
        exact ⟨(Fits.literal _).anywhere, htext.anywhere⟩
    | query =>
        exact Fits.flat hw (by decide)
          |>.append (.literal _)
          |>.append (.flat hw (by decide))
          |>.append hvalue
          |>.append (.flat hw (by decide))
    | header =>
        exact Fits.flat hw (by decide)
          |>.append (.literal _)
          |>.append (.flat hw (by decide))
          |>.append hvalue
          |>.append (.flat hw (by decide))
  refine Fits.ite (hsend _ (.word _)) ?_
  exact Fits.flat hw (by decide)
    |>.append (.word _)
    |>.append (.braces (hsend _ (.word _)).anywhere)

theorem SentPart.fits (p : SentPart) (record : String) :
    Fits w allowed true (p.code record) true := by
  have hsource : Fits w allowed true (flat "&" ++ word record ++ flat "." ++ word p.field) true :=
    (Fits.between hw (by decide) record (by decide)).append (.word _)
  have hadd : Fits w allowed true (if p.isFile then
      flat "form = form.part(" ++ literal p.wire ++
        flat ", ::bindery::client::file_part(&upload.name, &upload.file, &upload.content_type)" ++
        flat ".await?,);"
      else flat "form = form.text(" ++ literal p.wire ++ flat ", value.to_string());") true := by
    refine Fits.ite ?_ ?_
    · exact Fits.flat hw (by decide)
        |>.append (.literal _)
        |>.append (.flat hw (by decide))
        |>.append (.flat hw (by decide))
    · exact Fits.flat hw (by decide)
        |>.append (.literal _)
        |>.append (.flat hw (by decide))
  refine .braces (Fits.anywhere (.ite ?_ ?_))
  · exact Fits.between hw (by decide) _ (by decide)
      |>.append hsource
      |>.append (.flat hw (by decide))
      |>.append hadd
  · exact Fits.between hw (by decide) _ (by decide)
      |>.append hsource
      |>.append (.braces hadd.anywhere)

theorem EncodeArm.fits (a : EncodeArm) {className : String}
    (hclass : w = "models" → allowed className) : Fits w allowed true (a.code className) true := by
  have hvariant : ∀ o, Fits w allowed true
      (modelPath .sibling className ++ flat "::" ++ word a.media.tag) o :=
    fun _ => (fits_modelPath .sibling hclass).segment _
  have hbound : Fits w allowed true (modelPath .sibling className ++ flat "::" ++
    word a.media.tag ++
      braces (word a.member) ++ flat "=>") true :=
    hvariant true
      |>.append (.braces (Fits.word _).anywhere)
      |>.append (.flat hw (by decide))
  have hrequest : ∀ {s : String}, Code.Quiet (Code.places true) (flat s) → Fits w allowed true
      (modelPath .sibling className ++ flat "::" ++ word a.media.tag ++ braces (word a.member) ++
        flat "=>" ++ flat s ++ word a.member ++ flat "),") true := fun hs =>
    (hbound.append (.flat hw hs)).labelled hw a.member (by decide)
  unfold code
  cases a.send with
  | json => exact hrequest (by decide)
  | form => exact hrequest (by decide)
  | unsupported =>
      have herror : Fits w allowed true
          (flat "return Err(::bindery::ClientError::UnsupportedMediaType(" ++
            literal a.media.mime ++
            flat ".to_string()));") true :=
        Fits.flat hw (by decide)
          |>.append (.literal _)
          |>.append (.flat hw (by decide))
      exact hvariant true
        |>.append (.braces (Fits.flat hw (by decide)).anywhere)
        |>.append (.flat hw (by decide))
        |>.append (.braces herror.anywhere)
  | multipart parts =>
      have hparts : Fits w allowed true (flat "let mut form = ::reqwest::multipart::Form::new();" ++
          parts.flatMap (·.code a.member) ++ flat "request.multipart(form)") true :=
        Fits.flat hw (by decide)
          |>.append (Fits.flatMap fun p _ => p.fits hw _)
          |>.append (.flat hw (by decide))
      exact hbound.append (.braces hparts.anywhere)

theorem BodyEncode.fits (b : BodyEncode) (hclass : w = "models" → allowed b.className) :
    Fits w allowed true b.code true := by
  have harms : Fits w allowed true (b.arms.flatMap (·.code b.className)) true :=
    Fits.flatMap fun a _ => a.fits hw hclass
  have hencode : Fits w allowed true (flat "request = match request_body" ++
      braces (b.arms.flatMap (·.code b.className)) ++ flat ";") true :=
    Fits.flat hw (by decide)
      |>.append (.braces harms.anywhere)
      |>.append (.flat hw (by decide))
  exact Fits.ite hencode ((Fits.flat hw (by decide)).append (.braces hencode.anywhere))

/-! ## Responses -/

theorem HeaderRead.fits (h : HeaderRead) : Fits w allowed true h.code true := by
  have hread : Fits w allowed false (flat (if h.required then "::bindery::client::required_header"
      else "::bindery::client::optional_header")) true := by
    split
    · exact .rooted hw (by decide)
    · exact .rooted hw (by decide)
  exact Fits.label hw h.field (by decide)
    |>.append hread
    |>.append (.flat hw (by decide))
    |>.append (.literal _)
    |>.append (.flat hw (by decide))
    |>.append (fits_scalarReader hw _)
    |>.append (.flat hw (by decide))

/-- The models that a variant is read with. -/
def DecodeArm.Allows (w : String) (allowed : String → Prop) (b : DecodeArm) : Prop :=
  ∀ e ∈ b.members, ∀ x ∈ e.2.models, w = "models" → allowed x

theorem DecodeArm.fits (b : DecodeArm) {className : String}
    (hclass : w = "models" → allowed className) (hb : b.Allows w allowed) :
    Fits w allowed true (b.bodyCode className) true := by
  unfold bodyCode
  refine (Fits.append (m := true) ?headers ?body
    |>.append (.flat hw (by decide))
    |>.append (fits_modelPath .sibling hclass)).segment b.tag
    |>.append (fits_bindings b.bindings)
    |>.append (.flat hw (by decide))
  case headers =>
    split
    · exact .nil
    · rename_i binding type fields he
      have htype : (binding, type) ∈ b.members := by
        refine List.mem_append_right _ ?_
        rw [he]
        exact List.mem_singleton.2 rfl
      have hfields : Fits w allowed true (fields.flatMap (·.code)) true :=
        Fits.flatMap fun h _ => h.fits hw
      exact Fits.between hw (by decide) binding (by decide)
        |>.append (type.fits hw .sibling (hb _ htype))
        |>.append (.braces hfields.anywhere)
        |>.append (.flat hw (by decide))
  case body =>
    split
    · exact .nil
    · exact .between hw (by decide) _ (by decide)
    · rename_i binding type he
      have htype : (binding, type) ∈ b.members := by
        refine List.mem_append_left _ ?_
        rw [he]
        exact List.mem_singleton.2 rfl
      exact Fits.between hw (by decide) binding (by decide)
        |>.append (type.fits hw .sibling (hb _ htype))
        |>.append (.flat hw (by decide))

theorem ClientMethod.fits_armsCode (k : ClientMethod)
    (hresponse : w = "models" → allowed k.response)
    (harms : ∀ b ∈ k.arms, b.Allows w allowed) : Fits w allowed true k.armsCode true := by
  have hbody : ∀ b ∈ k.arms, Fits w allowed false (b.bodyCode k.response) true := fun b hb =>
    (b.fits hw hresponse (harms b hb)).anywhere
  unfold armsCode
  refine Fits.append (Fits.flatMap fun b hb => ?fixed) ?rest
  case fixed =>
    split
    · exact (Fits.label hw _ (by decide)).append (.braces (hbody b hb))
    · exact .nil
  case rest =>
    split
    · rename_i b hdefault
      exact (Fits.flat hw (by decide)).append
        (.braces (hbody b (List.mem_of_find?_eq_some hdefault)))
    · exact .flat hw (by decide)

/-! ## Methods -/

theorem ClientMethod.fits (k : ClientMethod) (hresponse : w = "models" → allowed k.response)
    (hparams : ∀ p ∈ k.params, ∀ x ∈ p.type.models, w = "models" → allowed x)
    (hbody : ∀ b, k.body = some b → w = "models" → allowed b.className)
    (harms : ∀ b ∈ k.arms, b.Allows w allowed) : Fits w allowed true k.code true := by
  have hsent : ∀ qs : List SentParam, Fits w allowed true (qs.flatMap (·.code)) true := fun _ =>
    Fits.flatMap fun q _ => q.fits hw
  have hpath : Fits w allowed false (commas ((k.sentIn .path).map (·.code))) true := by
    refine Fits.commas fun c hc => ?_
    obtain ⟨q, -, rfl⟩ := List.mem_map.1 hc
    exact (q.fits hw).anywhere
  have hquery : Fits w allowed true (if (k.sentIn .query).isEmpty then []
      else flat "let mut query: Vec<(&str, String)> = Vec::new();" ++
        (k.sentIn .query).flatMap (·.code)) true :=
    Fits.ite .nil ((Fits.flat hw (by decide)).append (hsent _))
  have hcall : Fits w allowed true (if (k.sentIn .query).isEmpty then [] else flat ".query(&query)")
      true :=
    Fits.ite .nil (.flat hw (by decide))
  have hbinding : Fits w allowed true (flat (if (k.sentIn .header).isEmpty && k.body.isNone
      then "let request" else "let mut request")) true := by
    split
    · exact .flat hw (by decide)
    · exact .flat hw (by decide)
  have hencode : Fits w allowed true ((k.body.map (·.code)).getD []) true := by
    cases hb : k.body with
    | none => exact .nil
    | some b => exact b.fits hw (hbody b hb)
  unfold code
  refine (fits_docAttrs hw _
    |>.append (.flat hw (by decide))
    |>.append (.word _)
    |>.append (fits_paramsCode hw k.params hparams)
    |>.append (.flat hw (by decide))
    |>.append (fits_modelPath .sibling hresponse)
    |>.append (.flat hw (by decide))).append (.braces (Fits.anywhere ?_))
  exact Fits.flat hw (by decide)
    |>.append (.literal _)
    |>.append (.flat hw (by decide))
    |>.append hpath
    |>.append (.flat hw (by decide))
    |>.append hquery
    |>.append hbinding
    |>.append (.flat hw (by decide))
    |>.append (.word _)
    |>.append (.flat hw (by decide))
    |>.append hcall
    |>.append (.flat hw (by decide))
    |>.append (hsent _)
    |>.append hencode
    |>.append (.flat hw (by decide))
    |>.append (.braces (k.fits_armsCode hw hresponse harms).anywhere)

theorem fits_clientCode (ident : String) {ks : List ClientMethod}
    (hks : ∀ k ∈ ks, Fits w allowed true k.code true) :
    Fits w allowed true (clientCode ident ks) true := by
  have hfunction : ∀ {s t : String}, Code.Quiet (Code.places true) (flat s) →
      Code.Quiet (Code.places true) (flat t) →
        Fits w allowed true (flat s ++ braces (flat t)) true :=
    fun hs ht => (Fits.flat hw hs).append (.braces (Fits.flat hw ht).anywhere)
  have hself : Fits w allowed true
    (flat "Self" ++ braces (flat "client, base_url: base_url.into(),"))
      true := hfunction (by decide) (by decide)
  unfold clientCode
  refine (Fits.flat hw (by decide)
    |>.append (.word _)
    |>.append (.braces (Fits.flat hw (by decide)).anywhere)
    |>.append (.flat hw (by decide))
    |>.append (.word _)).append (.braces (Fits.anywhere ?_))
  exact fits_docAttrs hw _
    |>.append (.flat hw (by decide))
    |>.append (.braces (Fits.flat hw (by decide)).anywhere)
    |>.append (fits_docAttrs hw _)
    |>.append (.flat hw (by decide))
    |>.append (.braces hself.anywhere)
    |>.append (.flat hw (by decide))
    |>.append (.braces (Fits.flat hw (by decide)).anywhere)
    |>.append (Fits.flatMap hks)

/-! ## Models -/

theorem Field.fits (f : Field) (hf : ∀ x ∈ f.type.models, w = "super" → allowed x) :
    Fits w allowed true f.code true := by
  have hrename : Fits w allowed true (flat "rename =" ++ literal f.wire) true :=
    (Fits.flat hw (by decide)).append (.literal _)
  have hargs : Fits w allowed true (if f.required then flat "rename =" ++ literal f.wire
      else flat "rename =" ++ literal f.wire ++ flat ", default, skip_serializing_if =" ++
        literal "Option::is_none") true := by
    refine Fits.ite hrename ?_
    exact hrename
      |>.append (.flat hw (by decide))
      |>.append (.literal _)
  have hserde : Fits w allowed true (flat "serde" ++ parens (if f.required
      then flat "rename =" ++ literal f.wire
      else flat "rename =" ++ literal f.wire ++ flat ", default, skip_serializing_if =" ++
        literal "Option::is_none")) true :=
    (Fits.flat hw (by decide)).append (.parens hargs.anywhere)
  have hattr : Fits w allowed true (fieldAttr f) true :=
    (Fits.flat hw (by decide)).append (.brackets hserde.anywhere)
  have hdoc : Fits w allowed true
      ((f.format.map fun format => docAttrs ("Format: `" ++ format ++ "`")).getD []) true := by
    cases f.format with
    | none => exact .nil
    | some format => exact fits_docAttrs hw _
  exact (hdoc
    |>.append hattr
    |>.append (.flat hw (by decide))).labelled hw f.ident (by decide)
    |>.append (f.type.fits hw .models hf)
    |>.append (.flat hw (by decide))

theorem SumVariant.fits (v : SumVariant)
    (hv : ∀ e ∈ v.members, ∀ x ∈ e.2.models, w = "super" → allowed x) :
    Fits w allowed true v.code true := by
  have hmembers : Fits w allowed true (v.members.flatMap fun e =>
      word e.1 ++ flat ":" ++ e.2.code .models ++ flat ",") true := by
    refine Fits.flatMap fun e he => ?_
    exact Fits.label hw e.1 (by decide)
      |>.append (e.2.fits hw .models (hv e he))
      |>.append (.flat hw (by decide))
  refine Fits.ite (.label hw _ (by decide)) ?_
  exact Fits.word v.tag
    |>.append (.braces hmembers.anywhere)
    |>.append (.flat hw (by decide))

theorem fits_recordHead (ident : String) {derived : String}
    (hderived : Code.Quiet (Code.places true) (flat derived)) :
    Fits w allowed true (recordHead ident derived) true := by
  have hderive : Fits w allowed true (flat "derive" ++ parens (flat derived)) true :=
    (Fits.flat hw (by decide)).append (.parens (Fits.flat hw hderived).anywhere)
  exact Fits.flat hw (by decide)
    |>.append (.brackets hderive.anywhere)
    |>.append (.flat hw (by decide))
    |>.append (.word _)

theorem fits_uploadCode (ident : String) : Fits w allowed true (uploadCode ident) true := by
  have hconstruct : Fits w allowed true (flat "Self" ++ braces
      (flat "name: upload.name, file: upload.path, content_type: upload.content_type,")) true :=
    (Fits.flat hw (by decide)).append (.braces (Fits.flat hw (by decide)).anywhere)
  have hfrom : Fits w allowed true (flat "fn from(upload: ::bindery::UploadedFile) -> Self" ++
      braces (flat "Self" ++ braces
        (flat "name: upload.name, file: upload.path, content_type: upload.content_type,"))) true :=
    (Fits.flat hw (by decide)).append (.braces hconstruct.anywhere)
  exact fits_docAttrs hw _
    |>.append (fits_recordHead hw ident (by decide))
    |>.append (.braces (Fits.flat hw (by decide)).anywhere)
    |>.append (.flat hw (by decide))
    |>.append (.word _)
    |>.append (.braces hfrom.anywhere)

theorem Model.fits (r : Model) (hr : ∀ x ∈ r.shape.models, w = "super" → allowed x) :
    Fits w allowed true r.code true := by
  unfold code
  cases hshape : r.shape with
  | upload => exact fits_uploadCode hw _
  | openRecord =>
      have hmap : Fits w allowed true (flat "#[serde(flatten)] pub additional_properties:" ++
          CodeType.code .models .dynamicMap ++ flat ",") true :=
        Fits.flat hw (by decide)
          |>.append (CodeType.dynamicMap.fits hw .models (by simp [CodeType.models]))
          |>.append (.flat hw (by decide))
      exact (fits_recordHead hw _ (by decide)).append (.braces hmap.anywhere)
  | record fields =>
      rw [hshape] at hr
      have hfields : Fits w allowed true (fields.flatMap (·.code)) true :=
        Fits.flatMap fun f hf => f.fits hw fun x hx => hr x (List.mem_flatMap.2 ⟨f, hf, hx⟩)
      exact (fits_recordHead hw _ (by decide)).append (.braces hfields.anywhere)
  | sum vs =>
      rw [hshape] at hr
      have hvariants : Fits w allowed true (vs.flatMap (·.code)) true := by
        refine Fits.flatMap fun v hv => v.fits hw fun e he x hx => hr x ?_
        exact List.mem_flatMap.2 ⟨v, hv, List.mem_flatMap.2 ⟨e, he, hx⟩⟩
      exact Fits.flat hw (by decide)
        |>.append (.word _)
        |>.append (.braces hvariants.anywhere)

end Templates

/-! ## The module -/

/-- Behind the import of the models, the client names the models of its methods. -/
theorem fits_clientModule {m : Metadata} {s : SourceModule} (hw : w ∈ pathWords)
    (h : clientModule m = .ok s)
    (hmethods : ∀ e ∈ m.operations, ∀ k, clientMethod m.refs e = .ok k →
      (w = "models" → allowed k.response) ∧
        (∀ p ∈ k.params, ∀ x ∈ p.type.models, w = "models" → allowed x) ∧
        (∀ b, k.body = some b → w = "models" → allowed b.className) ∧
        ∀ b ∈ k.arms, b.Allows w allowed) :
    ∃ rest, s.code = modelsImport m ++ rest ∧ Fits w allowed true rest true := by
  obtain ⟨_, -, h⟩ := bind_eq_ok.1 h
  obtain ⟨ks, hks, h⟩ := bind_eq_ok.1 h
  obtain rfl := Except.ok.inj h
  have hall : ∀ k ∈ ks, Fits w allowed true k.code true := by
    intro k hk
    obtain ⟨e, he, hok⟩ := exists_of_mem_right (mapM_eq_ok.1 hks) hk
    obtain ⟨hresponse, hparams, hbody, harms⟩ := hmethods e he k hok
    exact k.fits hw hresponse hparams hbody harms
  exact ⟨_, List.append_assoc _ _ _, (fits_docAttrs hw _).append (fits_clientCode hw _ hall)⟩

end Emit
end ApiContract
