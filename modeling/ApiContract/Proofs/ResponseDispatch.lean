import ApiContract.Proofs.ClientArguments
import ApiContract.Proofs.Containment
import ApiContract.Service.ResponseWriter

/-!
# Responses in models, handlers and clients

**Input:** a resolved document from which models, controller and client can be generated.

The responses of an operation are generated three times: as the variants of a model, as the arms by
which a handler writes them, and as the arms by which a client method reads them.

**Results:**

* `decoded_eq`: the arms by which a client method reads responses are tried one after another
  (`ClientMethod.decoded`), so an arm for the status is taken, else the arm of the default response,
  if there is one;
* `responses_agree`: the three are written with the same variants, of the same tags and members, and
  a response that a handler writes is read as the variant that it was.
-/

namespace ApiContract
namespace Emit

open Code (flat braces)

/-! ## Reading -/

namespace StatusArm

def fits (status : Nat) : StatusArm → Bool
  | .variant b => b.status.all (· == status)
  | .unexpected => true

def result? : StatusArm → Option DecodeArm
  | .variant b => some b
  | .unexpected => none

end StatusArm

namespace ClientMethod

/-- What a status is read as, by the first arm that is for it. -/
def decoded (k : ClientMethod) (status : Nat) : Option DecodeArm :=
  (k.statusArms.find? (·.fits status)).bind (·.result?)

/-- An arm for the status is taken, else the arm of the default response. -/
theorem decoded_eq (k : ClientMethod) (status : Nat) :
    k.decoded status = (k.arms.find? (·.status == some status)).or k.defaultArm? := by
  have hfits : (fun b : DecodeArm => decide (b.status.isSome = true ∧
      (StatusArm.variant b).fits status = true)) = (·.status == some status) := by
    funext b
    rw [Bool.eq_iff_iff, decide_eq_true_iff, beq_iff_eq]
    cases hb : b.status <;> simp [StatusArm.fits, hb]
  have hlast : ([k.lastArm].find? (·.fits status)).bind (·.result?) = k.defaultArm? := by
    rcases k.lastArm_cases with ⟨hd, hl⟩ | ⟨b, hd, hb, hl⟩
    · rw [hd, hl]
      rfl
    · rw [hd, hl]
      simp [StatusArm.fits, StatusArm.result?, hb]
  unfold decoded statusArms fixedArms
  rw [List.find?_append, List.find?_map, List.find?_filter]
  simp only [Function.comp_def, hfits]
  cases k.arms.find? (·.status == some status) with
  | none => exact hlast
  | some b => rfl

/-- Nothing is read exactly where the arm that is taken is the one for statuses that are not
declared. -/
theorem decoded_eq_none_iff_unexpected (k : ClientMethod) (status : Nat) :
    k.decoded status = none ↔ k.statusArms.find? (·.fits status) = some .unexpected := by
  have hlast : (k.statusArms.find? (·.fits status)).isSome := by
    rw [List.find?_isSome]
    refine ⟨k.lastArm, List.mem_append_right _ (List.mem_singleton.2 rfl), ?_⟩
    rcases k.lastArm_cases with ⟨-, hl⟩ | ⟨b, -, hb, hl⟩
    · rw [hl]
      rfl
    · rw [hl, StatusArm.fits, hb]
      rfl
  obtain ⟨arm, harm⟩ := Option.isSome_iff_exists.1 hlast
  rw [decoded, harm]
  cases arm with
  | variant b => simp [StatusArm.result?]
  | unexpected => simp [StatusArm.result?]

end ClientMethod

/-! ## Arms -/

/-- The statuses that a response is read by. -/
def codeOf : Status → Option Nat
  | .code n => some n
  | .default => none

theorem codeOf_injective : Function.Injective codeOf := by
  intro st st' h
  cases st <;> cases st' <;> simp_all [codeOf]

theorem codeOf_eq_some_iff {st : Status} {n : Nat} : codeOf st = some n ↔ st = .code n :=
  ⟨fun h => codeOf_injective h, fun h => congrArg codeOf h⟩

def headersRead (refs : RefTable) (v : Variant) :
    Emitting (Option (String × CodeType × List HeaderRead)) :=
  match v.headers with
  | none => .ok none
  | some u => do
    let type ← typeOf refs u
    let properties ← headerProperties v u
    return some (memberIdent u, type, ← properties.mapM headerRead)

def bodyRead (refs : RefTable) : Payload → Emitting ResponseRead
  | .none => .ok .empty
  | .body t true => .ok (.file (memberIdent t))
  | .body t false => (typeOf refs t).map (.json (memberIdent t))

section Arms

variable {refs : RefTable} {o : Operation} {st : Status} {v : Variant} {a : DispatchArm}
  {b : DecodeArm}

theorem dispatchArm_eq_ok (h : dispatchArm o st v = .ok a) :
    a.tag = v.name ∧ a.bindings = v.members.map memberIdent ∧
      statusSource o st v = .ok a.status := by
  unfold dispatchArm at h
  obtain ⟨status, hstatus, h⟩ := bind_eq_ok.1 h
  dsimp only at h
  split at h
  all_goals
    obtain ⟨ps, -, h⟩ := bind_eq_ok.1 h
    obtain rfl := Except.ok.inj h
    exact ⟨rfl, rfl, hstatus⟩

theorem exists_body_of_statusSource {source : StatusSource}
    (h : statusSource o .default v = .ok source) : ∃ binding, source = .body binding := by
  unfold statusSource at h
  cases hb : v.body? with
  | none =>
      rw [hb] at h
      cases h
  | some t =>
      rw [hb] at h
      exact ⟨memberIdent t, (Except.ok.inj h).symm⟩

theorem decodeArm_eq (refs : RefTable) (st : Status) (v : Variant) :
    decodeArm refs st v = do
      let headers ← headersRead refs v
      let body ← bodyRead refs v.payload
      return {
        status := codeOf st
        tag := v.name
        bindings := v.members.map memberIdent
        headers
        body } := by
  obtain ⟨name, headers, payload⟩ := v
  unfold decodeArm
  cases headers with
  | none =>
      cases payload with
      | none => cases st <;> rfl
      | body t isFile => cases isFile <;> cases st <;> rfl
  | some u =>
      simp only [headersRead, bind_assoc, pure_bind]
      cases payload with
      | none => cases st <;> rfl
      | body t isFile => cases isFile <;> cases st <;> rfl

/-- What a variant that is read carries. -/
def DecodeArm.members (b : DecodeArm) : List (String × CodeType) :=
  (match b.body with
    | .empty => []
    | .file binding => [(binding, .file)]
    | .json binding type => [(binding, type)]) ++
    (b.headers.map fun h => (h.1, h.2.1)).toList

/-- A member has the name and the type of a descriptor. -/
def IsMember (refs : RefTable) (t : Descriptor) (e : String × CodeType) : Prop :=
  e.1 = memberIdent t ∧ typeOf refs t = .ok e.2

theorem memberOf_eq_ok {t : Descriptor} {e : String × CodeType} (h : memberOf refs t = .ok e) :
    IsMember refs t e := by
  obtain ⟨type, ht, h⟩ := bind_eq_ok.1 h
  obtain rfl := Except.ok.inj h
  exact ⟨rfl, ht⟩

theorem memberOf_of_typeOf {t : Descriptor} {type : CodeType} (h : typeOf refs t = .ok type) :
    memberOf refs t = .ok (memberIdent t, type) :=
  bind_eq_ok.2 ⟨type, h, rfl⟩

theorem decodeArm_eq_ok (h : decodeArm refs st v = .ok b) :
    b.status = codeOf st ∧ b.tag = v.name ∧ b.bindings = v.members.map memberIdent ∧
      headersRead refs v = .ok b.headers ∧ bodyRead refs v.payload = .ok b.body := by
  rw [decodeArm_eq] at h
  obtain ⟨headers, hheaders, h⟩ := bind_eq_ok.1 h
  obtain ⟨body, hbody, h⟩ := bind_eq_ok.1 h
  obtain rfl := Except.ok.inj h
  exact ⟨rfl, rfl, rfl, hheaders, hbody⟩

/-- A variant is read with what it carries, a file with the type of files. -/
theorem types_of_decodeArm (h : decodeArm refs st v = .ok b) :
    List.Forall₂ (fun t e => e.1 = memberIdent t ∧
      (v.payload = .body t true ∧ e.2 = .file ∨ typeOf refs t = .ok e.2)) v.members b.members := by
  obtain ⟨-, -, -, hheaders, hbody⟩ := decodeArm_eq_ok h
  refine List.rel_append ?_ ?_
  · unfold Variant.body?
    cases hp : v.payload with
    | none =>
        rw [hp] at hbody
        rw [← Except.ok.inj hbody]
        exact .nil
    | body t isFile =>
        rw [hp] at hbody
        cases isFile with
        | true =>
            rw [← Except.ok.inj hbody]
            exact .cons ⟨rfl, Or.inl ⟨rfl, rfl⟩⟩ .nil
        | false =>
            obtain ⟨type, ht, hjson⟩ := map_eq_ok.1 hbody
            rw [← hjson]
            exact .cons ⟨rfl, Or.inr ht⟩ .nil
  · unfold headersRead at hheaders
    cases hh : v.headers with
    | none =>
        rw [hh] at hheaders
        rw [← Except.ok.inj hheaders]
        exact .nil
    | some u =>
        rw [hh] at hheaders
        obtain ⟨type, ht, hheaders⟩ := bind_eq_ok.1 hheaders
        obtain ⟨ps, -, hheaders⟩ := bind_eq_ok.1 hheaders
        obtain ⟨fields, -, hheaders⟩ := bind_eq_ok.1 hheaders
        rw [← Except.ok.inj hheaders]
        exact .cons ⟨rfl, Or.inr ht⟩ .nil

/-- If only files are read as such, these are the types of what it carries. -/
theorem members_of_decodeArm (h : decodeArm refs st v = .ok b)
    (hfile : ∀ t, v.payload = .body t true → t = .file) :
    List.Forall₂ (IsMember refs) v.members b.members := by
  refine (types_of_decodeArm h).imp fun t e he => ⟨he.1, ?_⟩
  rcases he.2 with ⟨ht, hfiletype⟩ | htype
  · rw [hfile t ht, hfiletype, typeOf, typeWithin]
  · exact htype

end Arms

/-! ## Sums -/

section Sums

variable {refs : RefTable} {vs : List (String × List Descriptor)} {shape : ModelShape}

/-- The shape of a sum has a variant for each of its variants, with the same members. -/
theorem sumShape_eq_ok (h : sumShape refs vs = .ok shape) :
    ∃ svs, shape = .sum svs ∧ List.Forall₂ (fun v sv =>
      sv.tag = v.1 ∧ List.Forall₂ (IsMember refs) v.2 sv.members) vs svs := by
  obtain ⟨svs, hsvs, rfl⟩ := map_eq_ok.1 h
  refine ⟨svs, rfl, (mapM_eq_ok.1 hsvs).imp fun v sv hv => ?_⟩
  obtain ⟨members, hmembers, hv⟩ := bind_eq_ok.1 hv
  obtain rfl := Except.ok.inj hv
  exact ⟨rfl, (mapM_eq_ok.1 hmembers).imp fun _ _ => memberOf_eq_ok⟩

/-- Descriptors have one name and one type each. -/
theorem eq_of_members {ts : List Descriptor} {es es' : List (String × CodeType)}
    (h : List.Forall₂ (IsMember refs) ts es) (h' : List.Forall₂ (IsMember refs) ts es') :
    es = es' := by
  rw [← List.forall₂_eq_eq_eq]
  refine forall₂_of_common h h' fun t e e' he he' => ?_
  have htype : e.2 = e'.2 := Except.ok.inj (he.2.symm.trans he'.2)
  exact Prod.ext (he.1.trans he'.1.symm) htype

theorem map_fst_of_members {ts : List Descriptor} {es : List (String × CodeType)}
    (h : List.Forall₂ (IsMember refs) ts es) : es.map Prod.fst = ts.map memberIdent := by
  rw [eq_comm, map_eq_map_iff]
  exact h.imp fun _ _ he => he.1.symm

end Sums

/-! ## Statuses -/

/-- What an arm begins to write, where `code` gives the field of the body that is bound to a
name. -/
def DispatchArm.begun (a : DispatchArm) (code : String → Int) :
    Except HandlerError ResponseWriter :=
  ResponseWriter.ofCode <|
    match a.status with
    | .fixed n => n
    | .body binding => code binding

/-- An arm answers with a status, for some response. -/
def DispatchArm.Answers (a : DispatchArm) (status : Nat) : Prop :=
  ∃ code w, a.begun code = .ok w ∧ w.status = status

/-- An arm with a fixed status answers with no other. -/
theorem status_of_answers {a : DispatchArm} {n status : Nat} (ha : a.status = .fixed n)
    (h : a.Answers status) : n = status := by
  obtain ⟨code, w, hw, rfl⟩ := h
  unfold DispatchArm.begun ResponseWriter.ofCode at hw
  simp only [ha] at hw
  split at hw
  · rw [← Except.ok.inj hw]
    exact (Int.toNat_natCast n).symm
  · cases hw

/-- The arms of a handler and of a client method are made from the same variants, which have
different statuses. -/
structure SameVariants (refs : RefTable) (o : Operation) (k : Handler) (c : ClientMethod) :
    Prop where
  statuses : (o.responseBody.variants.map Prod.fst).Nodup
  dispatch : List.Forall₂ (fun e a => dispatchArm o e.1 e.2 = .ok a) o.responseBody.variants k.arms
  decode : List.Forall₂ (fun e b => decodeArm refs e.1 e.2 = .ok b) o.responseBody.variants c.arms

namespace SameVariants

variable {refs : RefTable} {o : Operation} {k : Handler} {c : ClientMethod} {a : DispatchArm}
  {b : DecodeArm} {status : Nat}

theorem nodup_statuses (h : SameVariants refs o k c) : (c.arms.map (·.status)).Nodup := by
  have hmap : c.arms.map (·.status) = (o.responseBody.variants.map Prod.fst).map codeOf := by
    rw [List.map_map, eq_comm, map_eq_map_iff]
    exact h.decode.imp fun e b hb => (decodeArm_eq_ok hb).1.symm
  rw [hmap]
  exact h.statuses.map codeOf_injective

theorem eq_of_status (h : SameVariants refs o k c) {b' : DecodeArm} (hb : b ∈ c.arms)
    (hb' : b' ∈ c.arms) (hs : b.status = b'.status) : b = b' :=
  List.inj_on_of_nodup_map h.nodup_statuses hb hb' hs

/-- The arms that are tried are those of all variants. -/
theorem results_perm (h : SameVariants refs o k c) :
    (c.statusArms.filterMap (·.result?)).Perm c.arms := by
  have hfixed : (c.fixedArms.map StatusArm.variant).filterMap (·.result?) = c.fixedArms := by
    rw [List.filterMap_map]
    exact List.filterMap_some
  have hlast : [c.lastArm].filterMap (·.result?) =
      c.arms.filter (!·.status.isSome) := by
    have hnone : (fun b : DecodeArm => !b.status.isSome) = fun b => b.status.isNone := by
      funext b
      exact Option.not_isSome _
    rw [hnone, filter_eq_toList_find? (h.nodup_statuses.of_map _)]
    · change _ = c.defaultArm?.toList
      rcases c.lastArm_cases with ⟨hd, hl⟩ | ⟨b, hd, -, hl⟩ <;> rw [hd, hl] <;> rfl
    · intro b hb b' hb' hn hn'
      rw [Option.isNone_iff_eq_none] at hn hn'
      exact h.eq_of_status hb hb' (hn.trans hn'.symm)
  unfold ClientMethod.statusArms
  rw [List.filterMap_append, hfixed, hlast]
  exact List.filter_append_perm _ _

/-- A status with an arm of its own is read by this arm. -/
theorem decoded_of_status (h : SameVariants refs o k c) (hb : b ∈ c.arms)
    (hs : b.status = some status) : c.decoded status = some b := by
  have hfind : c.arms.find? (·.status == some status) = some b := by
    refine find?_eq_some_of_unique hb (by simpa using hs) fun b' hb' hs' => ?_
    exact h.eq_of_status hb' hb ((by simpa using hs' : b'.status = some status).trans hs.symm)
  rw [ClientMethod.decoded_eq, hfind, Option.some_or]

/-- The arm without a status is that of the default response. -/
theorem defaultArm?_eq (h : SameVariants refs o k c) (hb : b ∈ c.arms) (hs : b.status = none) :
    c.defaultArm? = some b := by
  refine find?_eq_some_of_unique hb (by simp [hs]) fun b' hb' hs' => ?_
  rw [Option.isNone_iff_eq_none] at hs'
  exact h.eq_of_status hb' hb (hs'.trans hs.symm)

/-- A status without one is read by the arm of the default response. -/
theorem decoded_of_default (h : SameVariants refs o k c) (hb : b ∈ c.arms) (hs : b.status = none)
    (hfree : ∀ b' ∈ c.arms, b'.status ≠ some status) : c.decoded status = some b := by
  have hnone : c.arms.find? (·.status == some status) = none :=
    List.find?_eq_none.2 fun b' hb' => by simpa using hfree b' hb'
  rw [ClientMethod.decoded_eq, hnone, h.defaultArm?_eq hb hs, Option.none_or]

theorem exists_arms (h : SameVariants refs o k c) (ha : a ∈ k.arms) :
    ∃ e ∈ o.responseBody.variants, ∃ b ∈ c.arms, dispatchArm o e.1 e.2 = .ok a ∧
      decodeArm refs e.1 e.2 = .ok b := by
  obtain ⟨e, he, ha⟩ := exists_of_mem_right h.dispatch ha
  obtain ⟨b, hb, hd⟩ := exists_of_mem_right h.decode.flip he
  exact ⟨e, he, b, hb, ha, hd⟩

/-- A response is read as the variant that it was, unless it has the status of another. -/
theorem exists_decoded (h : SameVariants refs o k c) (ha : a ∈ k.arms) (hs : a.Answers status)
    (hfree : ∀ binding, a.status = .body binding → ∀ a' ∈ k.arms, a'.status ≠ .fixed status) :
    ∃ b ∈ c.arms, c.decoded status = some b ∧ b.tag = a.tag ∧ b.bindings = a.bindings := by
  obtain ⟨⟨st, v⟩, he, b, hb, hwrite, hread⟩ := h.exists_arms ha
  obtain ⟨htag, hbindings, hsource⟩ := dispatchArm_eq_ok hwrite
  obtain ⟨hstatus, htag', hbindings', -, -⟩ := decodeArm_eq_ok hread
  refine ⟨b, hb, ?_, htag'.trans htag.symm, hbindings'.trans hbindings.symm⟩
  cases st with
  | code n =>
      have hfixed : a.status = .fixed n := (Except.ok.inj hsource).symm
      rw [status_of_answers hfixed hs] at hstatus
      exact h.decoded_of_status hb hstatus
  | default =>
      obtain ⟨binding, hbody⟩ := exists_body_of_statusSource hsource
      refine h.decoded_of_default hb hstatus fun b' hb' hs' => ?_
      -- A variant with this status of its own would be written with it.
      obtain ⟨e, he', hread'⟩ := exists_of_mem_right h.decode hb'
      obtain ⟨a', ha', hwrite'⟩ := exists_of_mem_right h.dispatch.flip he'
      have hcode : e.1 = .code status := codeOf_eq_some_iff.1 ((decodeArm_eq_ok hread').1 ▸ hs')
      have hsource' := (dispatchArm_eq_ok hwrite').2.2
      rw [hcode] at hsource'
      exact hfree binding hbody a' ha' (Except.ok.inj hsource').symm

theorem decoded_eq_none_iff (h : SameVariants refs o k c) :
    c.decoded status = none ↔
      o.responseBody.variants.lookup (.code status) = none ∧ o.responseBody.default? = none := by
  have hread : ∀ st : Status, o.responseBody.variants.lookup st = none ↔
      ∀ b ∈ c.arms, b.status ≠ codeOf st := by
    intro st
    rw [Assoc.lookup_eq_none_iff_not_mem]
    constructor
    · intro hst b hb hs
      obtain ⟨e, he, hd⟩ := exists_of_mem_right h.decode hb
      have hkey : e.1 = st := codeOf_injective ((decodeArm_eq_ok hd).1.symm.trans hs)
      exact hst (List.mem_map.2 ⟨e, he, hkey⟩)
    · intro hne hst
      obtain ⟨e, he, rfl⟩ := List.mem_map.1 hst
      obtain ⟨b, hb, hd⟩ := exists_of_mem_right h.decode.flip he
      exact hne b hb (decodeArm_eq_ok hd).1
  rw [ClientMethod.decoded_eq, Option.or_eq_none_iff, ResponseBody.default?, hread, hread]
  unfold ClientMethod.defaultArm?
  rw [List.find?_eq_none, List.find?_eq_none]
  simp [codeOf]

end SameVariants

/-! ## Models -/

/-- The text of a variant that is made or taken apart: its tag, and the names of its members. -/
def constructorText (className : String) (v : SumVariant) : Code :=
  variantStart className v.tag ++ namesText (v.members.map Prod.fst)

/-- The text of an arm that takes the members of a variant. -/
def TakesVariant (className : String) (v : SumVariant) (c : Code) : Prop :=
  ∃ body, c = constructorText className v ++ (flat "=>" ++ braces body)

/-- The text of an arm that gives a variant made of its members. -/
def GivesVariant (className : String) (v : SumVariant) (c : Code) : Prop :=
  ∃ pattern before, c = pattern ++
    braces (before ++ (flat "Ok(" ++ constructorText className v ++ flat ")"))

/-- The model of the responses of an operation, the arms that write them and the arms that read them
have the same variants. -/
structure ResponsesAgree (m : Metadata) (o : Operation) (r : Model) (k : Handler) (c : ClientMethod)
    (svs : List SumVariant) : Prop where
  names : k.response = r.name ∧ c.response = r.name
  /-- The model has these variants, with different names, and is generated with them. -/
  shape : ∃ svs', r.shape = .sum svs' ∧ svs'.Perm svs
  tags : (svs.map (·.tag)).Nodup
  declared : Generated m r
  /-- An arm of the handler takes the members of one of them, and an arm of the client reads these
  members with their types and gives them in their order. -/
  dispatch : List.Forall₂ (fun sv a => a.tag = sv.tag ∧
    a.bindings = sv.members.map Prod.fst) svs k.arms
  decode : List.Forall₂ (fun sv b => b.tag = sv.tag ∧ b.bindings = sv.members.map Prod.fst ∧
    b.members = sv.members) svs c.arms
  /-- The handler is written with an arm for each of them, in their order. -/
  written : ∃ texts, List.Forall₂ (DispatchArmText r.name) k.arms texts ∧
    List.Forall₂ (TakesVariant r.name) svs texts ∧
    flat "match response" ++ braces texts.flatten <:+: k.code (contractName m)
  /-- The client is written with an arm for each of them, and tries all arms, in some order. -/
  read : ∃ texts, List.Forall₂ (StatusArmText r.name) c.statusArms texts ∧
    List.Forall₂ (fun arm text => ∀ b, arm.result? = some b →
      ∃ sv ∈ svs, sv.tag = b.tag ∧ GivesVariant r.name sv text) c.statusArms texts ∧
    flat "match response.status().as_u16()" ++ braces texts.flatten <:+: c.code
  tried : (c.statusArms.filterMap (·.result?)).Perm c.arms
  /-- What a handler answers is read as the variant that it was, unless a response for all statuses
  has the status of another. -/
  decoded : ∀ a ∈ k.arms, ∀ status, a.Answers status →
    (∀ binding, a.status = .body binding → ∀ a' ∈ k.arms, a'.status ≠ .fixed status) →
    ∃ b ∈ c.arms, c.decoded status = some b ∧ b.tag = a.tag ∧ b.bindings = a.bindings
  /-- A status is unexpected if and only if it is not declared and there is no default response. -/
  unexpected : ∀ status, c.statusArms.find? (·.fits status) = some .unexpected ↔
    o.responseBody.variants.lookup (.code status) = none ∧ o.responseBody.default? = none

section Texts

variable {className : String} {sv : SumVariant} {text : Code}

theorem DispatchArmText.takes {a : DispatchArm} (h : DispatchArmText className a text)
    (htag : a.tag = sv.tag) (hbindings : a.bindings = sv.members.map Prod.fst) :
    TakesVariant className sv text := by
  obtain ⟨status, headers, register, write, -, -, -, rfl⟩ := h
  rw [htag, hbindings]
  exact ⟨_, rfl⟩

theorem StatusArmText.gives {b : DecodeArm} (h : StatusArmText className (.variant b) text)
    (htag : b.tag = sv.tag) (hbindings : b.bindings = sv.members.map Prod.fst) :
    GivesVariant className sv text := by
  have hread : ∀ read, VariantReadText className b read → ∃ before,
      read = before ++ (flat "Ok(" ++ constructorText className sv ++ flat ")") := by
    rintro read ⟨headers, body, -, -, rfl⟩
    rw [htag, hbindings, ← List.append_assoc headers]
    exact ⟨headers ++ body, rfl⟩
  cases h with
  | fixed hstatus h =>
      obtain ⟨before, rfl⟩ := hread _ h
      rw [← List.append_assoc]
      exact ⟨_, before, rfl⟩
  | default hstatus h =>
      obtain ⟨before, rfl⟩ := hread _ h
      exact ⟨_, before, rfl⟩

end Texts

section Agreement

variable {d : Document} {namePrefix : String} {ws : List Warning} {m : Metadata} {ms : List Model}
  {o : Operation} {r : Model} {k : Handler} {c : ClientMethod} {cs cs' : List ContractParam}

/-- A sum whose name is not claimed by another descriptor has a model with its variants, in some
order. -/
theorem exists_sumModel (h : d.resolve namePrefix = .ok (m, ws))
    (hc : Collected m.refs (allParts m) ms) {name : String} {vs : List (String × List Descriptor)}
    (hmem : .oneOf name vs ∈ allParts m)
    (hclaim : ∀ r ∈ ms, r.name = name →
      ∃ u, r.descriptor = some u ∧ u.alike (.oneOf name vs) = true) :
    ∃ r ∈ ms, r.name = name ∧ ∃ svs, (∃ svs', r.shape = .sum svs' ∧ svs'.Perm svs) ∧
      List.Forall₂ (fun v sv => sv.tag = v.1 ∧
        List.Forall₂ (IsMember m.refs) v.2 sv.members) vs svs := by
  obtain ⟨_, hmodel⟩ := exists_modelOf? m.refs (t := .oneOf name vs) rfl
  obtain ⟨r, hr, hname⟩ := hc.found _ hmem _ _ hmodel
  obtain ⟨u, hu, hlike⟩ := hclaim r hr hname
  obtain ⟨hpart, hmade, -⟩ := made_from hc hr hu
  obtain ⟨vs', rfl, hperm⟩ := Resolve.exists_perm_of_alike_part h hpart hlike
  obtain ⟨-, hshape⟩ := Prod.mk.inj (Option.some.inj hmade)
  obtain ⟨svs', hsum, hsvs'⟩ := sumShape_eq_ok hshape
  obtain ⟨svs, hsvs, hperm'⟩ := List.perm_comp_forall₂ hperm.symm hsvs'
  exact ⟨r, hr, hname, svs, ⟨svs', hsum, hperm'.symm⟩, hsvs⟩

/-- What a response carries is a part of the sum of the responses. -/
theorem mem_allParts_of_variant (ho : o ∈ m.operations)
    (hn : (o.responseBody.variants.map fun e => e.2.name).Nodup) {e : Status × Variant}
    (he : e ∈ o.responseBody.variants) {u : Descriptor} (hu : u ∈ e.2.members) :
    u ∈ allParts m := by
  have hsum := mem_allParts_of_mem_sumsOf ho List.mem_cons_self
  rw [Resolve.sum_eq hn] at hsum
  exact mem_allParts_of_member hsum (List.mem_map.2 ⟨e, he, rfl⟩) hu

/-- This holds of the responses of an operation. -/
theorem exists_responseModel (h : d.resolve namePrefix = .ok (m, ws))
    (hc : Collected m.refs (allParts m) ms) (ho : o ∈ m.operations)
    (hn : (o.responseBody.variants.map fun e => e.2.name).Nodup)
    (hclaim : ∀ r ∈ ms, r.name = o.responseBody.className →
      ∃ u, r.descriptor = some u ∧ u.alike o.responseBody.sum = true) :
    ∃ r ∈ ms, r.name = o.responseBody.className ∧
      ∃ svs, (∃ svs', r.shape = .sum svs' ∧ svs'.Perm svs) ∧
        List.Forall₂ (fun e sv => sv.tag = e.2.name ∧
          List.Forall₂ (IsMember m.refs) e.2.members sv.members) o.responseBody.variants svs := by
  have hmem := mem_allParts_of_mem_sumsOf ho List.mem_cons_self
  rw [Resolve.sum_eq hn] at hclaim hmem
  obtain ⟨r, hr, hname, svs, hshape, hsvs⟩ := exists_sumModel h hc hmem hclaim
  exact ⟨r, hr, hname, svs, hshape, List.forall₂_map_left_iff.1 hsvs⟩

/-- The arms that the client tries are written one after another, and those that are for variants
give these variants. -/
theorem exists_read_texts {svs : List SumVariant} {name : String} (hname : c.response = name)
    (hdecode : List.Forall₂ (fun sv b => b.tag = sv.tag ∧ b.bindings = sv.members.map Prod.fst ∧
      b.members = sv.members) svs c.arms)
    (htried : (c.statusArms.filterMap (·.result?)).Perm c.arms) :
    ∃ texts, List.Forall₂ (StatusArmText name) c.statusArms texts ∧
      List.Forall₂ (fun arm text => ∀ b, arm.result? = some b →
        ∃ sv ∈ svs, sv.tag = b.tag ∧ GivesVariant name sv text) c.statusArms texts ∧
      flat "match response.status().as_u16()" ++ braces texts.flatten <:+: c.code := by
  obtain ⟨_, ⟨texts, htexts, rfl⟩, hpart⟩ := c.text.arms
  rw [hname] at htexts
  refine ⟨texts, htexts, forall₂_imp_mem htexts fun arm text harm _ htext b hb => ?_, hpart⟩
  have hmem : b ∈ c.arms := htried.mem_iff.1 (List.mem_filterMap.2 ⟨arm, harm, hb⟩)
  obtain ⟨sv, hsv, htag, hbindings, -⟩ := exists_of_mem_right hdecode hmem
  have hvariant : arm = .variant b := by
    cases arm with
    | variant b' => exact congrArg StatusArm.variant (Option.some.inj hb)
    | unexpected => cases hb
  rw [hvariant] at htext
  exact ⟨sv, hsv, htag.symm, htext.gives htag hbindings⟩

/-- Model, handler and client are made from the same variants. -/
theorem responsesAgree_of_variants {svs : List SumVariant} (h : SameVariants m.refs o k c)
    (hn : (o.responseBody.variants.map fun e => e.2.name).Nodup)
    (hfile : ∀ e ∈ o.responseBody.variants, ∀ t, e.2.payload = .body t true → t = .file)
    (hnames : k.response = r.name ∧ c.response = r.name) (hgenerated : Generated m r)
    (hshape : ∃ svs', r.shape = .sum svs' ∧ svs'.Perm svs)
    (hsvs : List.Forall₂ (fun e sv => sv.tag = e.2.name ∧
      List.Forall₂ (IsMember m.refs) e.2.members sv.members) o.responseBody.variants svs) :
    ResponsesAgree m o r k c svs := by
  have htags : svs.map (·.tag) = o.responseBody.variants.map fun e => e.2.name := by
    rw [eq_comm, map_eq_map_iff]
    exact hsvs.imp fun _ _ hv => hv.1.symm
  have hdispatch : List.Forall₂ (fun sv a => a.tag = sv.tag ∧
      a.bindings = sv.members.map Prod.fst) svs k.arms := by
    refine forall₂_of_common hsvs h.dispatch fun e sv a hv ha => ?_
    obtain ⟨htag, hbindings, -⟩ := dispatchArm_eq_ok ha
    exact ⟨htag.trans hv.1.symm, hbindings.trans (map_fst_of_members hv.2).symm⟩
  have hdecode : List.Forall₂ (fun sv b => b.tag = sv.tag ∧ b.bindings = sv.members.map Prod.fst ∧
      b.members = sv.members) svs c.arms := by
    have hfiles := (List.forall₂_and_left _ _).2 ⟨hfile, h.decode⟩
    refine forall₂_of_common hsvs hfiles fun e sv b hv hb => ?_
    obtain ⟨-, htag, hbindings, -, -⟩ := decodeArm_eq_ok hb.2
    refine ⟨htag.trans hv.1.symm, hbindings.trans (map_fst_of_members hv.2).symm, ?_⟩
    exact eq_of_members (members_of_decodeArm hb.2 hb.1) hv.2
  exact {
    names := hnames
    shape := hshape
    tags := htags ▸ hn
    declared := hgenerated
    dispatch := hdispatch
    decode := hdecode
    written := by
      obtain ⟨_, ⟨texts, htexts, rfl⟩, hpart⟩ := (k.text (contractName m)).arms
      rw [hnames.1] at htexts
      refine ⟨texts, htexts, ?_, hpart⟩
      exact forall₂_of_common hdispatch.flip htexts fun a sv text ha htext =>
        htext.takes ha.1 ha.2
    read := exists_read_texts hnames.2 hdecode h.results_perm
    tried := h.results_perm
    decoded := fun _ ha _ hs hfree => h.exists_decoded ha hs hfree
    unexpected := fun status => by
      rw [← c.decoded_eq_none_iff_unexpected status]
      exact h.decoded_eq_none_iff }

end Agreement

/-! ### A document with several responses -/

section Hosts

open Resolve (fault faultPointer hostMetadata hostOperation hostProgress hostResponses)

def faultModel : Model where
  name := "Fault"
  descriptor := some fault
  shape := .record [{
    ident := "code"
    wire := "code"
    type := .scalar .int
    required := true
    format := none }]

/-- The headers of the response with a file. -/
def fileHeaders : Descriptor :=
  .object (some "ListHostsResponseFileHeaders")
    [{ name := "X-Total", type := .primitive .int, required := true }]

def fileHeadersModel : Model where
  name := "ListHostsResponseFileHeaders"
  descriptor := some fileHeaders
  shape := .record [{
    ident := "x_total"
    wire := "X-Total"
    type := .scalar .int
    required := true
    format := none }]

def listHostsModel : Model where
  name := "ListHostsResponse"
  descriptor := some hostResponses.sum
  shape := .sum [
    { tag := "File"
      members := [("file", .file),
        ("list_hosts_response_file_headers", .model "ListHostsResponseFileHeaders")] },
    { tag := "NotFound", members := [] },
    { tag := "Fault", members := [("fault", .model "Fault")] }]

/-- The field of a property with a scalar. -/
theorem fieldOf_scalar {refs : RefTable} {p : Property} {q : Primitive}
    (ht : refs.resolve? p.type = some (.primitive q)) (hp : closesCycle refs p.type = false) :
    fieldOf refs p = .ok {
      ident := Naming.fieldIdent p.name
      wire := p.name
      type := optionalUnless p.required (.scalar q)
      required := p.required
      format := p.format } := by
  have htype : fieldType refs p = .ok (optionalUnless p.required (.scalar q)) := by
    refine bind_eq_ok.2 ⟨.scalar q, typeOf_eq_scalar ht, ?_⟩
    rw [hp]
    rfl
  exact bind_eq_ok.2 ⟨_, htype, rfl⟩

theorem recordShape_number (refs : RefTable) (name : String) :
    recordShape refs [{ name, type := .primitive .int, required := true }] =
      .ok (.record [{
        ident := Naming.fieldIdent name
        wire := name
        type := .scalar .int
        required := true
        format := none }]) := by
  have hresolve : refs.resolve? (.primitive .int) = some (.primitive .int) :=
    RefTable.follow?_of_pointer?_eq_none refs rfl _
  have hfield : fieldOf refs { name, type := .primitive .int, required := true } = .ok _ :=
    fieldOf_scalar (q := .int) hresolve rfl
  exact map_eq_ok.2 ⟨_, mapM_eq_ok.2 (.cons hfield .nil), rfl⟩

theorem sumShape_hosts :
    sumShape hostProgress.table
      (hostResponses.variants.map fun e => (e.2.name, e.2.members)) = .ok listHostsModel.shape := by
  have hfile : typeOf hostProgress.table .file = .ok .file := by rw [typeOf, typeWithin]
  have hheaders : typeOf hostProgress.table fileHeaders =
      .ok (.model "ListHostsResponseFileHeaders") := typeOf_eq_model_iff.2 ⟨_, rfl, rfl⟩
  have hfault : typeOf hostProgress.table (.ref faultPointer) = .ok (.model "Fault") :=
    typeOf_eq_model_iff.2 ⟨fault, rfl, rfl⟩
  refine map_eq_ok.2 ⟨_, mapM_eq_ok.2 (.cons ?_ (.cons rfl (.cons ?_ .nil))), rfl⟩
  · have hmembers := mapM_eq_ok.2
      (.cons (memberOf_of_typeOf hfile) (.cons (memberOf_of_typeOf hheaders) .nil))
    exact bind_eq_ok.2 ⟨_, hmembers, rfl⟩
  · exact bind_eq_ok.2 ⟨_, mapM_eq_ok.2 (.cons (memberOf_of_typeOf hfault) .nil), rfl⟩

theorem models_hosts :
    (models hostMetadata).1 = .ok [upload, faultModel, listHostsModel, fileHeadersModel] := by
  have hclaims : (allParts hostMetadata).forM (claimPart hostProgress.table) =
      (claim "Fault" fault (.ok faultModel.shape) >>= fun _ =>
        claim "ListHostsResponse" hostResponses.sum (.ok listHostsModel.shape) >>= fun _ =>
          claim "ListHostsResponseFileHeaders" fileHeaders (.ok fileHeadersModel.shape)) := by
    have hparts : allParts hostMetadata = [fault, .primitive .int, hostResponses.sum, .file,
        fileHeaders, .primitive .int, .ref faultPointer] := rfl
    have hfault : claimPart hostProgress.table fault =
        claim "Fault" fault (.ok faultModel.shape) :=
      congrArg (claim "Fault" fault) (recordShape_number _ "code")
    have hsum : claimPart hostProgress.table hostResponses.sum =
        claim "ListHostsResponse" hostResponses.sum (.ok listHostsModel.shape) :=
      congrArg (claim "ListHostsResponse" hostResponses.sum) sumShape_hosts
    have hheaders : claimPart hostProgress.table fileHeaders =
        claim "ListHostsResponseFileHeaders" fileHeaders (.ok fileHeadersModel.shape) :=
      congrArg (claim "ListHostsResponseFileHeaders" fileHeaders) (recordShape_number _ "X-Total")
    have hnumber : claimPart hostProgress.table (.primitive .int) = pure () := rfl
    have hfile : claimPart hostProgress.table .file = pure () := rfl
    have hpointer : claimPart hostProgress.table (.ref faultPointer) = pure () := rfl
    rw [hparts]
    simp [hfault, hsum, hheaders, hnumber, hfile, hpointer]
  exact models_of_claims rfl hclaims

end Hosts

/-! ### Generated code -/

section Generated

open Resolve (hostDocument hostMetadata hostOperation hostResponses resolve_hostDocument)

variable {d : Document} {m : Metadata} {ms : List Model} {s t : SourceModule} {o : Operation}

/-- The model of the responses of an operation, whose name is not claimed by another descriptor, the
handler and the client method are written with the same variants, with the same members.  The client
reads what the handler answers as the variant that it was, unless a response for all statuses is
sent with the status of another, and nothing else is read. -/
theorem responses_agree {namePrefix : String} {ws : List Warning}
    (h : d.resolve namePrefix = .ok (m, ws)) (hms : (models m).1 = .ok ms)
    (hs : controllerModule m = .ok s) (ht : clientModule m = .ok t) (ho : o ∈ m.operations)
    (hclaim : ∀ r ∈ ms, r.name = o.responseBody.className →
      ∃ u, r.descriptor = some u ∧ u.alike o.responseBody.sum = true) :
    ∃ r ∈ ms, ∃ k c svs, handler m.refs o = .ok k ∧ k.code (contractName m) <:+: s.code ∧
      clientMethod m.refs o = .ok c ∧ c.code <:+: t.code ∧ ResponsesAgree m o r k c svs := by
  obtain ⟨_, _, _, hbody⟩ := Resolve.exists_run_responseBody h ho
  have hn := Resolve.nodup_names_of_responseBody hbody
  obtain ⟨hstatuses, hfile⟩ := Resolve.variants_of_responseBody hbody
  obtain ⟨k, hk, hkcode⟩ := exists_handler hs ho
  obtain ⟨_, -, hkof⟩ := handler_eq_ok hk
  obtain ⟨c, hc, hccode⟩ := exists_clientMethod ht ho
  obtain ⟨_, -, hcof⟩ := clientMethod_eq_ok hc
  obtain ⟨r, hr, hname, svs, hshape, hsvs⟩ :=
    exists_responseModel h (collected_of_models hms) ho hn hclaim
  have hsame : SameVariants m.refs o k c := ⟨hstatuses, hkof.arms, hcof.arms⟩
  have hnames : k.response = r.name ∧ c.response = r.name :=
    ⟨hkof.response.trans hname.symm, hcof.response.trans hname.symm⟩
  exact ⟨r, hr, k, c, svs, hk, hkcode, hc, hccode, responsesAgree_of_variants hsame hn hfile hnames
    (generated_of_models hms hr) hshape hsvs⟩

theorem responses_agree_hosts :
    hostDocument.resolve "Api" = .ok (hostMetadata, []) ∧
      (models hostMetadata).1 = .ok [upload, faultModel, listHostsModel, fileHeadersModel] ∧
      ∃ s t, controllerModule hostMetadata = .ok s ∧ clientModule hostMetadata = .ok t ∧
        hostOperation ∈ hostMetadata.operations ∧
        ∃ r ∈ [upload, faultModel, listHostsModel, fileHeadersModel], ∃ k c svs,
          handler hostMetadata.refs hostOperation = .ok k ∧
          k.code (contractName hostMetadata) <:+: s.code ∧
          clientMethod hostMetadata.refs hostOperation = .ok c ∧ c.code <:+: t.code ∧
          ResponsesAgree hostMetadata hostOperation r k c svs := by
  obtain ⟨s, hs⟩ := exists_controllerModule_hosts
  obtain ⟨t, ht⟩ := exists_clientModule_hosts
  have ho : hostOperation ∈ hostMetadata.operations := List.mem_cons_self
  refine ⟨resolve_hostDocument, models_hosts, s, t, hs, ht, ho,
    responses_agree resolve_hostDocument models_hosts hs ht ho fun r hr hname => ?_⟩
  simp only [List.mem_cons, List.not_mem_nil, or_false] at hr
  rcases hr with rfl | rfl | rfl | rfl
  · exact absurd hname (by decide)
  · exact absurd hname (by decide)
  · exact ⟨hostResponses.sum, rfl, Descriptor.alike_self _⟩
  · exact absurd hname (by decide)

end Generated

end Emit
end ApiContract
