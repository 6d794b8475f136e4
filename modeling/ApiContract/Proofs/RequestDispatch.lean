import ApiContract.Proofs.Requests
import ApiContract.Proofs.ResponseDispatch

/-!
# Request bodies in models, handlers and clients

**Input:** a resolved document from which models, controller and client can be generated.

The request body of an operation is generated three times: as the variants of a model, as the arms
by which a handler reads it, chosen by the content type of the request, and as the arms by which a
client method sends it.

**Results:**

* `taken_of_some`, `taken_of_none`: the arms by which a handler reads a body are tried one after
  another (`BodyDispatch.taken`), so the arm of the media type is taken, and without one the body is
  missing, unless the request names no media type and needs no body;
* `requests_agree`: the three are written with the same variants, of the same tags and members, and
  a request whose content type is a declared media type is read by the arm of this media type;
* `parameters_are_ignored`: so is one whose content type differs from it in parameters.
-/

namespace ApiContract
namespace Emit

open Code (flat word braces)

/-! ## Reading -/

def ContentArm.fits (type? : Option String) : ContentArm → Bool
  | .decode a => type? == some a.media.mime
  | .absent => type?.isNone
  | .missing => true

namespace BodyDispatch

/-- The first arm that fits the content type of a request. -/
def taken (b : BodyDispatch) (h : Headers) : Option ContentArm :=
  b.contentArms.find? (·.fits h.contentType?)

variable {b : BodyDispatch} {h : Headers} {text : String}

/-- Without a media type the body is missing, unless none is needed. -/
theorem taken_of_none (hn : h.contentType? = none) :
    b.taken h = some (if b.required then .missing else .absent) := by
  have harms : (b.arms.map ContentArm.decode).find? (·.fits none) = none := by
    rw [List.find?_map, Option.map_eq_none_iff, List.find?_eq_none]
    intro a _
    simp [ContentArm.fits]
  unfold taken contentArms
  rw [hn, List.find?_append, List.find?_append, harms]
  cases b.required <;> rfl

/-- The arm of the media type is taken, and without one the body is missing. -/
theorem taken_of_some (hs : h.contentType? = some text) :
    b.taken h = some ((b.arms.find? (·.media.mime == text)).elim .missing .decode) := by
  have hfits : (fun a : BodyArm => (ContentArm.decode a).fits (some text)) =
      (·.media.mime == text) := by
    funext a
    rw [Bool.eq_iff_iff]
    simp only [ContentArm.fits, beq_iff_eq, Option.some.injEq]
    exact eq_comm
  have habsent : (if b.required then [] else [ContentArm.absent]).find? (·.fits (some text)) =
      none := by
    cases b.required <;> rfl
  unfold taken contentArms
  rw [hs, List.find?_append, List.find?_append, List.find?_map, Function.comp_def, hfits, habsent]
  cases b.arms.find? (·.media.mime == text) <;> rfl

end BodyDispatch

/-! ## Arms -/

/-- The text of an arm that makes a variant with one member of a body. -/
def BuildsVariant (className : String) (v : SumVariant) (c : Code) : Prop :=
  ∃ member value, v.members.map Prod.fst = [member] ∧
    variantStart className v.tag ++ braces (word member ++ flat ":" ++ value) <:+: c

/-- The text of an arm that takes a body out of a variant with one member. -/
def BindsVariant (className : String) (v : SumVariant) (c : Code) : Prop :=
  ∃ member, v.members.map Prod.fst = [member] ∧
    variantStart className v.tag ++ braces (word member) <+: c

section Arms

variable {refs : RefTable} {media : Media} {t : Descriptor} {className : String} {required : Bool}

variable {sv : SumVariant} {text : Code}

/-- What reads a body, if it is read at all, makes a variant of it. -/
theorem DecodeText.builds {a : BodyArm} (h : DecodeText className a text) (hread : a.read ≠ .xml)
    (htag : sv.tag = a.media.tag) (hmember : sv.members.map Prod.fst = [a.member]) :
    BuildsVariant className sv text := by
  have haccept : ∀ (a : BodyArm) (before value : Code),
      variantStart className a.media.tag ++ braces (word a.member ++ flat ":" ++ value) <:+:
        flat "::bindery::valid_body(async" ++
          (braces (before ++ acceptText className a value) ++ flat ".await)?") := by
    intro a before value
    have hvariant : variantStart className a.media.tag ++
        braces (word a.member ++ flat ":" ++ value) <:+: acceptText className a value := by
      unfold acceptText
      exact List.infix_append_of_infix_right (List.infix_append_of_infix_left List.infix_rfl)
    have hbody : variantStart className a.media.tag ++
      braces (word a.member ++ flat ":" ++ value) <:+:
        before ++ acceptText className a value := List.infix_append_of_infix_right hvariant
    refine List.infix_append_of_infix_right (List.infix_append_of_infix_left ?_)
    exact hbody.trans (Code.infix_braces _)
  cases h with
  | json => exact ⟨_, _, hmember, htag ▸ haccept _ [] _⟩
  | form _ => exact ⟨_, _, hmember, htag ▸ haccept _ _ _⟩
  | xml => exact absurd rfl hread

theorem ContentArmText.builds {a : BodyArm} (h : ContentArmText className required (.decode a) text)
    (hread : a.read ≠ .xml) (htag : sv.tag = a.media.tag)
    (hmember : sv.members.map Prod.fst = [a.member]) : BuildsVariant className sv text := by
  cases h with
  | required _ h =>
      obtain ⟨member, value, hmembers, hpart⟩ := h.builds hread htag hmember
      refine ⟨member, value, hmembers, ?_⟩
      apply List.infix_append_of_infix_right
      apply List.infix_append_of_infix_left
      exact List.infix_append_of_infix_right hpart
  | optional _ h =>
      obtain ⟨member, value, hmembers, hpart⟩ := h.builds hread htag hmember
      refine ⟨member, value, hmembers, ?_⟩
      apply List.infix_append_of_infix_right
      apply List.infix_append_of_infix_left
      apply List.infix_append_of_infix_right
      exact List.infix_append_of_infix_left (List.infix_append_of_infix_right hpart)

/-- What sends a body, if it is sent at all, takes it out of the variant. -/
theorem EncodeArmText.binds {a : EncodeArm} (h : EncodeArmText className a text)
    (hsend : a.send ≠ .unsupported) (htag : sv.tag = a.media.tag)
    (hmember : sv.members.map Prod.fst = [a.member]) : BindsVariant className sv text := by
  have hprefix : ∀ rest : Code, variantStart className sv.tag ++ braces (word a.member) <+:
      variantStart className a.media.tag ++ (braces (word a.member) ++ rest) := by
    intro rest
    rw [htag, ← List.append_assoc]
    exact List.prefix_append _ _
  refine ⟨a.member, hmember, ?_⟩
  cases h with
  | json => exact hprefix _
  | form => exact hprefix _
  | multipart _ => exact hprefix _
  | unsupported => exact absurd rfl hsend

theorem bodyArm_eq_ok {a : BodyArm} (h : bodyArm refs media t = .ok a) :
    a.media = media ∧ a.member = memberIdent t ∧ (a.read = .xml ↔ media = .xml) := by
  unfold bodyArm at h
  cases media with
  | json =>
      obtain rfl := Except.ok.inj h
      exact ⟨rfl, rfl, by simp⟩
  | xml =>
      obtain rfl := Except.ok.inj h
      exact ⟨rfl, rfl, by simp⟩
  | form =>
      obtain ⟨read, hread, h⟩ := bind_eq_ok.1 h
      obtain ⟨f, -, rfl⟩ := map_eq_ok.1 hread
      obtain rfl := Except.ok.inj h
      exact ⟨rfl, rfl, by simp⟩
  | multipart =>
      obtain ⟨read, hread, h⟩ := bind_eq_ok.1 h
      obtain ⟨f, -, rfl⟩ := map_eq_ok.1 hread
      obtain rfl := Except.ok.inj h
      exact ⟨rfl, rfl, by simp⟩

theorem encodeArm_eq_ok {a : EncodeArm} (h : encodeArm refs media t = .ok a) :
    a.media = media ∧ a.member = memberIdent t ∧ (a.send = .unsupported ↔ media = .xml) := by
  unfold encodeArm at h
  cases media with
  | json =>
      obtain rfl := Except.ok.inj h
      exact ⟨rfl, rfl, by simp⟩
  | xml =>
      obtain rfl := Except.ok.inj h
      exact ⟨rfl, rfl, by simp⟩
  | form =>
      obtain rfl := Except.ok.inj h
      exact ⟨rfl, rfl, by simp⟩
  | multipart =>
      obtain ⟨r, -, h⟩ := bind_eq_ok.1 h
      obtain rfl := Except.ok.inj h
      exact ⟨rfl, rfl, by simp⟩

end Arms

/-! ## Agreement -/

/-- The model of the request body of an operation, the arms that read it and the arms that send it
have the same variants. -/
structure RequestsAgree (m : Metadata) (b : RequestBody) (r : Model) (hand : Handler)
    (cl : ClientMethod) (k : BodyDispatch) (c : BodyEncode) (svs : List SumVariant) : Prop where
  names : k.className = r.name ∧ c.className = r.name
  required : k.required = b.required ∧ c.required = b.required
  /-- The model has these variants, with different names, and is generated with them. -/
  shape : ∃ svs', r.shape = .sum svs' ∧ svs'.Perm svs
  tags : (svs.map (·.tag)).Nodup
  declared : Generated m r
  /-- Each of them has one member, and for each of them there is an arm of the handler and one of
  the client, with the same member. -/
  read : List.Forall₂ (fun sv a => sv.tag = a.media.tag ∧
    sv.members.map Prod.fst = [a.member]) svs k.arms
  sent : List.Forall₂ (fun sv a => sv.tag = a.media.tag ∧
    sv.members.map Prod.fst = [a.member]) svs c.arms
  /-- The handler is written with all arms.  Those for media types make the variants by their
  member, but for XML, which is not read. -/
  reading : ∃ texts, List.Forall₂ (ContentArmText r.name b.required) k.contentArms texts ∧
    List.Forall₂ (fun arm text => ∀ a, arm = .decode a → a.media ≠ .xml →
      ∃ sv ∈ svs, sv.tag = a.media.tag ∧ BuildsVariant r.name sv text) k.contentArms texts ∧
    flat "let request_body = match ::bindery::primary_content_type(&header_map).as_deref()" ++
      braces texts.flatten ++ flat ";" <:+: hand.code (contractName m)
  /-- The client is written with all arms.  They take the variants apart by their member, but for
  XML, which is not sent. -/
  sending : ∃ texts, List.Forall₂ (EncodeArmText r.name) c.arms texts ∧
    List.Forall₂ (fun a text => a.media ≠ .xml →
      ∃ sv ∈ svs, sv.tag = a.media.tag ∧ BindsVariant r.name sv text) c.arms texts ∧
    flat "request = match request_body" ++ braces texts.flatten ++ flat ";" <:+: cl.code

/-- A handler chooses the arm for a request by its content type. -/
structure Dispatches (rb : Document.RequestBody) (k : BodyDispatch) : Prop where
  required : k.required = rb.required
  media : (k.arms.map (·.media)).Nodup
  /-- A request whose content type is a declared one that is kept, in its very words, is read by the
  arm of this media type. -/
  declared : ∀ e ∈ rb.content, ∀ media, Resolve.Keeps e media → Visible e.1 →
    ∀ h : Headers, h.get? "content-type" = some e.1.toUTF8 →
      ∃ a ∈ k.arms, a.media = media ∧ k.taken h = some (.decode a)
  /-- A request that names a media type is read by the arm of this media type if a content of it is
  kept, and else its body is missing. -/
  named : ∀ (h : Headers) (text : String), h.contentType? = some text →
    ((∃ e ∈ rb.content, ∃ media, Resolve.Keeps e media ∧ Resolve.essence e.1 = text) ∧
      ∃ a ∈ k.arms, a.media.mime = text ∧ k.taken h = some (.decode a)) ∨
    ((∀ e ∈ rb.content, ∀ media, Resolve.Keeps e media → Resolve.essence e.1 ≠ text) ∧
      k.taken h = some .missing)
  /-- A request that names none has no body if none is needed, and else its body is missing. -/
  unnamed : ∀ h : Headers, h.NamesNone →
    k.taken h = some (if rb.required then .missing else .absent)

section Agreement

open Resolve (Keeps keptContents mem_keys_keptContents_iff nodup_keptContents)

variable {m : Metadata} {o : Operation} {b : RequestBody} {r : Model} {k : BodyDispatch}
  {c : BodyEncode} {rb : Document.RequestBody}

/-- The arms that the handler tries are written one after another, and those for media types make
the variants. -/
theorem exists_reading_texts {svs : List SumVariant} {hand : Handler}
    (hk : bodyDispatch m.refs b = .ok k) (hbody : hand.body = some k) (hname : k.className = r.name)
    (hread : List.Forall₂ (fun sv a => sv.tag = a.media.tag ∧
      sv.members.map Prod.fst = [a.member]) svs k.arms) :
    ∃ texts, List.Forall₂ (ContentArmText r.name b.required) k.contentArms texts ∧
      List.Forall₂ (fun arm text => ∀ a, arm = .decode a → a.media ≠ .xml →
        ∃ sv ∈ svs, sv.tag = a.media.tag ∧ BuildsVariant r.name sv text) k.contentArms texts ∧
      flat "let request_body = match ::bindery::primary_content_type(&header_map).as_deref()" ++
        braces texts.flatten ++ flat ";" <:+: hand.code (contractName m) := by
  obtain ⟨-, hrequired, harms⟩ := bodyDispatch_eq_ok hk
  obtain ⟨_, ⟨_, ⟨texts, htexts, rfl⟩, rfl⟩, hpart⟩ := (hand.text (contractName m)).body hbody
  rw [hname, hrequired] at htexts
  refine ⟨texts, htexts, forall₂_imp_mem htexts fun arm text harm _ htext => ?_, hpart⟩
  rintro a rfl hxml
  have ha : a ∈ k.arms := by
    rcases List.mem_append.1 harm with harm | harm
    · rcases List.mem_append.1 harm with harm | harm
      · obtain ⟨a', ha', he⟩ := List.mem_map.1 harm
        obtain rfl := ContentArm.decode.inj he
        exact ha'
      · split at harm
        · cases harm
        · cases List.mem_singleton.1 harm
    · cases List.mem_singleton.1 harm
  obtain ⟨sv, hsv, htag, hmember⟩ := exists_of_mem_right hread ha
  obtain ⟨_, -, harm⟩ := exists_of_mem_right harms ha
  obtain ⟨hmedia, -, hreadxml⟩ := bodyArm_eq_ok harm
  exact ⟨sv, hsv, htag, htext.builds (fun he => hxml (hmedia.trans (hreadxml.1 he))) htag hmember⟩

/-- The arms of the client are written one after another, and take the variants apart. -/
theorem exists_sending_texts {svs : List SumVariant} {cl : ClientMethod}
    (hc : bodyEncode m.refs b = .ok c) (hbody : cl.body = some c) (hname : c.className = r.name)
    (hsent : List.Forall₂ (fun sv a => sv.tag = a.media.tag ∧
      sv.members.map Prod.fst = [a.member]) svs c.arms) :
    ∃ texts, List.Forall₂ (EncodeArmText r.name) c.arms texts ∧
      List.Forall₂ (fun a text => a.media ≠ .xml →
        ∃ sv ∈ svs, sv.tag = a.media.tag ∧ BindsVariant r.name sv text) c.arms texts ∧
      flat "request = match request_body" ++ braces texts.flatten ++ flat ";" <:+: cl.code := by
  obtain ⟨-, -, harms⟩ := bodyEncode_eq_ok hc
  obtain ⟨text, htext, hpart⟩ := cl.text.body hbody
  obtain ⟨texts, htexts, hmatch⟩ := htext.arms
  rw [hname] at htexts
  refine ⟨texts, htexts, forall₂_imp_mem htexts fun a text ha _ htext hxml => ?_,
    hmatch.trans hpart⟩
  obtain ⟨sv, hsv, htag, hmember⟩ := exists_of_mem_right hsent ha
  obtain ⟨_, -, harm⟩ := exists_of_mem_right harms ha
  obtain ⟨hmedia, -, hsendxml⟩ := encodeArm_eq_ok harm
  exact ⟨sv, hsv, htag, htext.binds (fun he => hxml (hmedia.trans (hsendxml.1 he))) htag hmember⟩

/-- Model, handler and client are made from the same contents. -/
theorem requestsAgree_of_content {svs : List SumVariant} {hand : Handler} {cl : ClientMethod}
    (hk : bodyDispatch m.refs b = .ok k) (hkbody : hand.body = some k)
    (hc : bodyEncode m.refs b = .ok c) (hcbody : cl.body = some c)
    (hn : (b.content.map Prod.fst).Nodup) (hname : r.name = b.className)
    (hgenerated : Generated m r) (hshape : ∃ svs', r.shape = .sum svs' ∧ svs'.Perm svs)
    (hsvs : List.Forall₂ (fun e sv => sv.tag = e.1.tag ∧
      List.Forall₂ (IsMember m.refs) [e.2] sv.members) b.content svs) :
    RequestsAgree m b r hand cl k c svs := by
  obtain ⟨hkclass, hkrequired, hkarms⟩ := bodyDispatch_eq_ok hk
  obtain ⟨hcclass, hcrequired, hcarms⟩ := bodyEncode_eq_ok hc
  have htags : svs.map (·.tag) = (b.content.map Prod.fst).map Media.tag := by
    rw [List.map_map, eq_comm, map_eq_map_iff]
    exact hsvs.imp fun _ _ hv => hv.1.symm
  have hread : List.Forall₂ (fun sv a => sv.tag = a.media.tag ∧
      sv.members.map Prod.fst = [a.member]) svs k.arms := by
    refine forall₂_of_common hsvs hkarms fun e sv a hv ha => ?_
    obtain ⟨hmedia, hmember, -⟩ := bodyArm_eq_ok ha
    rw [hmedia, hmember, map_fst_of_members hv.2]
    exact ⟨hv.1, rfl⟩
  have hsent : List.Forall₂ (fun sv a => sv.tag = a.media.tag ∧
      sv.members.map Prod.fst = [a.member]) svs c.arms := by
    refine forall₂_of_common hsvs hcarms fun e sv a hv ha => ?_
    obtain ⟨hmedia, hmember, -⟩ := encodeArm_eq_ok ha
    rw [hmedia, hmember, map_fst_of_members hv.2]
    exact ⟨hv.1, rfl⟩
  exact {
    names := ⟨hkclass.trans hname.symm, hcclass.trans hname.symm⟩
    required := ⟨hkrequired, hcrequired⟩
    shape := hshape
    tags := htags ▸ hn.map Resolve.tag_injective
    declared := hgenerated
    read := hread
    sent := hsent
    reading := exists_reading_texts hk hkbody (hkclass.trans hname.symm) hread
    sending := exists_sending_texts hc hcbody (hcclass.trans hname.symm) hsent }

/-- A handler whose arms are those of the contents that are kept chooses among them by content
type. -/
theorem dispatches_of_kept (hrequired : k.required = rb.required)
    (harms : k.arms.map (·.media) = (keptContents rb.content).map Prod.fst) :
    Dispatches rb k := by
  have hmem : ∀ media, (∃ a ∈ k.arms, a.media = media) ↔ ∃ e ∈ rb.content, Keeps e media := by
    intro media
    rw [← mem_keys_keptContents_iff, ← harms, List.mem_map]
  have hnodup : (k.arms.map (·.media)).Nodup := harms ▸ nodup_keptContents rb.content
  -- The arm of a media type is the only one of it.
  have htaken : ∀ (h : Headers), ∀ a ∈ k.arms, h.contentType? = some a.media.mime →
      k.taken h = some (.decode a) := by
    intro h a ha hs
    have hfind : k.arms.find? (·.media.mime == a.media.mime) = some a := by
      refine find?_eq_some_of_unique ha (by simp) fun a' ha' he => ?_
      have hmedia : a'.media = a.media := mime_injective (by simpa using he)
      exact List.inj_on_of_nodup_map hnodup ha' ha hmedia
    rw [BodyDispatch.taken_of_some hs, hfind]
    rfl
  exact {
    required := hrequired
    media := hnodup
    declared := by
      intro e he media hk hvisible h hv
      obtain ⟨a, ha, rfl⟩ := (hmem media).2 ⟨e, he, hk⟩
      refine ⟨a, ha, rfl, htaken h a ha ?_⟩
      rw [Headers.contentType?_of_declared hvisible hv (not_blank_of_ofMime? hk.1),
        mime_of_ofMime? hk.1]
    named := by
      intro h text hs
      by_cases hex : ∃ a ∈ k.arms, a.media.mime = text
      · obtain ⟨a, ha, rfl⟩ := hex
        obtain ⟨e, he, hk⟩ := (hmem a.media).1 ⟨a, ha, rfl⟩
        exact Or.inl ⟨⟨e, he, a.media, hk, (mime_of_ofMime? hk.1).symm⟩, a, ha, rfl,
          htaken h a ha hs⟩
      · refine Or.inr ⟨fun e he media hk htext => hex ?_, ?_⟩
        · obtain ⟨a, ha, rfl⟩ := (hmem media).2 ⟨e, he, hk⟩
          exact ⟨a, ha, (mime_of_ofMime? hk.1).trans htext⟩
        · have hfind : k.arms.find? (·.media.mime == text) = none := by
            rw [List.find?_eq_none]
            intro a ha htext
            exact hex ⟨a, ha, by simpa using htext⟩
          rw [BodyDispatch.taken_of_some hs, hfind]
          rfl
    unnamed := by
      intro h hn
      rw [BodyDispatch.taken_of_none (Headers.contentType?_eq_none_iff.2 hn), hrequired] }

theorem mem_allParts_of_requestBody (ho : o ∈ m.operations) (hb : o.requestBody = some b) :
    b.sum ∈ allParts m := by
  refine mem_allParts_of_mem_sumsOf ho (List.mem_cons_of_mem _ ?_)
  rw [hb]
  exact List.mem_singleton.2 rfl

theorem mem_allParts_of_content (ho : o ∈ m.operations) (hb : o.requestBody = some b)
    {e : Media × Descriptor} (he : e ∈ b.content) : e.2 ∈ allParts m :=
  mem_allParts_of_member (mem_allParts_of_requestBody ho hb) (List.mem_map.2 ⟨e, he, rfl⟩)
    List.mem_cons_self

/-- The sum of a request body whose name is not claimed by another descriptor has a model. -/
theorem exists_requestModel {d : Document} {namePrefix : String} {ws : List Warning}
    {ms : List Model}
    (h : d.resolve namePrefix = .ok (m, ws)) (hc : Collected m.refs (allParts m) ms)
    (ho : o ∈ m.operations) (hb : o.requestBody = some b)
    (hclaim : ∀ r ∈ ms, r.name = b.className →
      ∃ u, r.descriptor = some u ∧ u.alike b.sum = true) :
    ∃ r ∈ ms, r.name = b.className ∧ ∃ svs, (∃ svs', r.shape = .sum svs' ∧ svs'.Perm svs) ∧
      List.Forall₂ (fun e sv => sv.tag = e.1.tag ∧
        List.Forall₂ (IsMember m.refs) [e.2] sv.members) b.content svs := by
  obtain ⟨r, hr, hname, svs, hshape, hsvs⟩ :=
    exists_sumModel h hc (mem_allParts_of_requestBody ho hb) hclaim
  exact ⟨r, hr, hname, svs, hshape, List.forall₂_map_left_iff.1 hsvs⟩

end Agreement

/-! ### A document with a form -/

section Reports

open Resolve (labelPointer report reportBody reportMetadata reportOperation reportPointer
  reportProgress textPointer)

def reportModel : Model where
  name := "Report"
  descriptor := some report
  shape := .record [
    { ident := "title"
      wire := "title"
      type := .optional (.scalar .string)
      required := false
      format := none },
    { ident := "scan"
      wire := "scan"
      type := .model "FileUpload"
      required := true
      format := some "binary" }]

/-- The headers of the response. -/
def reportHeaders : Descriptor :=
  .object (some "SendReportResponseFileHeaders")
    [{ name := "X-Total", type := .primitive .int, required := false }]

def reportHeadersModel : Model where
  name := "SendReportResponseFileHeaders"
  descriptor := some reportHeaders
  shape := .record [
    { ident := "x_total"
      wire := "X-Total"
      type := .optional (.scalar .int)
      required := false
      format := none }]

def sendReportResponseModel : Model where
  name := "SendReportResponse"
  descriptor := some reportOperation.responseBody.sum
  shape := .sum [
    { tag := "File"
      members := [("file", .file),
        ("send_report_response_file_headers", .model "SendReportResponseFileHeaders")] }]

def sendReportRequestModel : Model where
  name := "SendReportRequest"
  descriptor := some reportBody.sum
  shape := .sum [
    { tag := "MultipartForm", members := [("report", .model "Report")] },
    { tag := "Json", members := [("report", .model "Report")] }]

def reportModels : List Model :=
  [upload, reportModel, sendReportResponseModel, reportHeadersModel, sendReportRequestModel]

theorem models_reports : (models reportMetadata).1 = .ok reportModels := by
  have htitle : fieldOf reportProgress.table
      { name := "title", type := .ref labelPointer, required := false } = .ok _ :=
    fieldOf_scalar (q := .string) rfl rfl
  have hscan : fieldType reportProgress.table
      { name := "scan", type := .fileUpload, format := some "binary", required := true } =
      .ok (.model "FileUpload") :=
    bind_eq_ok.2 ⟨_, typeOf_eq_model_iff.2 ⟨.fileUpload, rfl, rfl⟩, rfl⟩
  have hrecord : claimPart reportProgress.table report =
      claim "Report" report (.ok reportModel.shape) := by
    refine congrArg (claim "Report" report) (map_eq_ok.2 ⟨_, mapM_eq_ok.2 (.cons htitle ?_), rfl⟩)
    exact .cons (bind_eq_ok.2 ⟨_, hscan, rfl⟩) .nil
  have hheaders : claimPart reportProgress.table reportHeaders =
      claim "SendReportResponseFileHeaders" reportHeaders (.ok reportHeadersModel.shape) := by
    refine congrArg (claim "SendReportResponseFileHeaders" reportHeaders) ?_
    exact map_eq_ok.2 ⟨_, mapM_eq_ok.2 (.cons (fieldOf_scalar (q := .int) rfl rfl) .nil), rfl⟩
  have hresponse : claimPart reportProgress.table reportOperation.responseBody.sum =
      claim "SendReportResponse" reportOperation.responseBody.sum
        (.ok sendReportResponseModel.shape) := by
    have hfile : typeOf reportProgress.table .file = .ok .file := by rw [typeOf, typeWithin]
    have hrecord : typeOf reportProgress.table reportHeaders =
        .ok (.model "SendReportResponseFileHeaders") := typeOf_eq_model_iff.2 ⟨_, rfl, rfl⟩
    have hmembers := mapM_eq_ok.2
      (.cons (memberOf_of_typeOf hfile) (.cons (memberOf_of_typeOf hrecord) .nil))
    refine congrArg (claim "SendReportResponse" _)
      (map_eq_ok.2 ⟨_, mapM_eq_ok.2 (.cons ?_ .nil), rfl⟩)
    exact bind_eq_ok.2 ⟨_, hmembers, rfl⟩
  have hrequest : claimPart reportProgress.table reportBody.sum =
      claim "SendReportRequest" reportBody.sum (.ok sendReportRequestModel.shape) := by
    have hpointer : typeOf reportProgress.table (.ref reportPointer) = .ok (.model "Report") :=
      typeOf_eq_model_iff.2 ⟨report, rfl, rfl⟩
    have hone := mapM_eq_ok.2 (.cons (memberOf_of_typeOf hpointer) .nil)
    refine congrArg (claim "SendReportRequest" _) ?_
    refine map_eq_ok.2 ⟨_, mapM_eq_ok.2 (.cons ?_ (.cons ?_ .nil)), rfl⟩
    · exact bind_eq_ok.2 ⟨_, hone, rfl⟩
    · exact bind_eq_ok.2 ⟨_, hone, rfl⟩
  have hparts : allParts reportMetadata = [.primitive .string, .ref textPointer, report,
      .ref labelPointer, .fileUpload, reportOperation.responseBody.sum, .file, reportHeaders,
      .primitive .int, reportBody.sum, .ref reportPointer, .ref reportPointer] := rfl
  have hother : ∀ t ∈ [Descriptor.primitive .string, .ref textPointer, .ref labelPointer,
    .fileUpload,
      .file, .primitive .int, .ref reportPointer], claimPart reportProgress.table t = pure () := by
    simp [claimPart, modelOf?]
  have hclaims : (allParts reportMetadata).forM (claimPart reportProgress.table) =
      (claim "Report" report (.ok reportModel.shape) >>= fun _ =>
        claim "SendReportResponse" reportOperation.responseBody.sum
            (.ok sendReportResponseModel.shape) >>= fun _ =>
          claim "SendReportResponseFileHeaders" reportHeaders (.ok reportHeadersModel.shape) >>=
            fun _ => claim "SendReportRequest" reportBody.sum
              (.ok sendReportRequestModel.shape)) := by
    rw [hparts]
    simp only [List.mem_cons, List.not_mem_nil, or_false, forall_eq_or_imp, forall_eq] at hother
    simp [hrecord, hheaders, hresponse, hrequest, hother]
  exact models_of_claims rfl hclaims

theorem exists_contractModule_reports : ∃ s, contractModule reportMetadata = .ok s :=
  ⟨_, rfl⟩

theorem exists_controllerModule_reports : ∃ s, controllerModule reportMetadata = .ok s :=
  ⟨_, rfl⟩

theorem exists_clientModule_reports : ∃ s, clientModule reportMetadata = .ok s := by
  have hrecord : typeOf reportMetadata.refs reportHeaders =
      .ok (.model "SendReportResponseFileHeaders") := typeOf_eq_model_iff.2 ⟨_, rfl, rfl⟩
  have hparams : ∃ cs, contractParams reportOperation = .ok cs := ⟨_, rfl⟩
  have hbody : ∃ r, bodyEncode reportMetadata.refs reportBody = .ok r := ⟨_, rfl⟩
  have harms : ∃ arms, reportOperation.responseBody.variants.mapM
      (fun e => decodeArm reportMetadata.refs e.1 e.2) = .ok arms :=
    ⟨_, mapM_eq_ok.2 (.cons (bind_eq_ok.2 ⟨_, hrecord, rfl⟩) .nil)⟩
  obtain ⟨cs, hcs⟩ := hparams
  obtain ⟨r, hr⟩ := hbody
  obtain ⟨arms, harms⟩ := harms
  obtain ⟨c, hc, -⟩ := exists_clientMethod_of_some rfl hcs hr harms
  have hmethods : reportMetadata.operations.mapM (clientMethod reportMetadata.refs) = .ok [c] :=
    mapM_eq_ok.2 (.cons hc .nil)
  exact exists_clientModule_of_methods rfl hmethods

end Reports

/-! ### Generated code -/

section Generated

open Resolve (operationsOf reportBody reportDocument reportMetadata reportOperation reportWarnings
  resolve_reportDocument)

variable {d : Document} {m : Metadata} {ms : List Model} {s t : SourceModule} {o : Operation}
  {b : RequestBody}

/-- The model of the request body of an operation, whose name is not claimed by another descriptor,
the handler and the client method are written with the same variants, with the same members.  A
request whose content type is a declared one that is kept, or differs from it in parameters and
case, is read by the arm of this media type, whatever else it names is an error, and a request that
names nothing has no body where none is needed. -/
theorem requests_agree {namePrefix : String} {ws : List Warning}
    (h : d.resolve namePrefix = .ok (m, ws)) (hms : (models m).1 = .ok ms)
    (hs : controllerModule m = .ok s) (ht : clientModule m = .ok t) (ho : o ∈ m.operations)
    (hb : o.requestBody = some b)
    (hclaim : ∀ r ∈ ms, r.name = b.className →
      ∃ u, r.descriptor = some u ∧ u.alike b.sum = true) :
    ∃ r ∈ ms, ∃ hand cl k c svs, handler m.refs o = .ok hand ∧
      hand.code (contractName m) <:+: s.code ∧ hand.body = some k ∧
      clientMethod m.refs o = .ok cl ∧ cl.code <:+: t.code ∧ cl.body = some c ∧
      RequestsAgree m b r hand cl k c svs ∧
      ∃ e rb, (e, o) ∈ (operationsOf d).zip m.operations ∧ e.2.2.2.requestBody = some rb ∧
        Dispatches rb k := by
  obtain ⟨e, he, σ, σ', hrun⟩ := exists_mem_zip (Resolve.run_endpoints h) ho
  obtain ⟨σ₁, σ₂, hbody, -⟩ := Resolve.run_operation hrun
  rw [hb] at hbody
  obtain ⟨rb, hrb, hrequired, hcontent, -⟩ := Resolve.run_requestBody hbody
  obtain ⟨hand, hhand, hhandcode⟩ := exists_handler hs ho
  obtain ⟨_, -, hhandof⟩ := handler_eq_ok hhand
  obtain ⟨cl, hcl, hclcode⟩ := exists_clientMethod ht ho
  obtain ⟨_, -, hclof⟩ := clientMethod_eq_ok hcl
  have hdispatch := hhandof.body
  have hencode := hclof.body
  rw [hb] at hdispatch hencode
  obtain ⟨k, hk, hkbody⟩ := exists_of_rel_some hdispatch
  obtain ⟨c, hc, hcbody⟩ := exists_of_rel_some hencode
  obtain ⟨r, hr, hname, svs, hshape, hsvs⟩ :=
    exists_requestModel h (collected_of_models hms) ho hb hclaim
  have hnodup : (b.content.map Prod.fst).Nodup := hcontent ▸ Resolve.nodup_keptContents rb.content
  obtain ⟨-, hkrequired, hkarms⟩ := bodyDispatch_eq_ok hk
  have hmedia : k.arms.map (·.media) = (Resolve.keptContents rb.content).map Prod.fst := by
    rw [← hcontent, eq_comm, map_eq_map_iff]
    exact hkarms.imp fun e a ha => (bodyArm_eq_ok ha).1.symm
  exact ⟨r, hr, hand, cl, k, c, svs, hhand, hhandcode, hkbody, hcl, hclcode, hcbody,
    requestsAgree_of_content hk hkbody hc hcbody hnodup hname (generated_of_models hms hr) hshape
      hsvs,
    e, rb, he, hrb, dispatches_of_kept (hkrequired.trans hrequired) hmedia⟩

theorem requests_agree_reports :
    reportDocument.resolve "Api" = .ok (reportMetadata, reportWarnings) ∧
      (models reportMetadata).1 = .ok reportModels ∧
      ∃ s t, controllerModule reportMetadata = .ok s ∧ clientModule reportMetadata = .ok t ∧
        reportOperation ∈ reportMetadata.operations ∧
          reportOperation.requestBody = some reportBody ∧
        ∃ r ∈ reportModels, ∃ hand cl k c svs,
          handler reportMetadata.refs reportOperation = .ok hand ∧
          hand.code (contractName reportMetadata) <:+: s.code ∧ hand.body = some k ∧
          clientMethod reportMetadata.refs reportOperation = .ok cl ∧ cl.code <:+: t.code ∧
          cl.body = some c ∧ RequestsAgree reportMetadata reportBody r hand cl k c svs ∧
          ∃ e rb, (e, reportOperation) ∈
            (operationsOf reportDocument).zip reportMetadata.operations ∧
            e.2.2.2.requestBody = some rb ∧ Dispatches rb k := by
  obtain ⟨s, hs⟩ := exists_controllerModule_reports
  obtain ⟨t, ht⟩ := exists_clientModule_reports
  have ho : reportOperation ∈ reportMetadata.operations := List.mem_cons_self
  refine ⟨resolve_reportDocument, models_reports, s, t, hs, ht, ho, rfl,
    requests_agree resolve_reportDocument models_reports hs ht ho rfl fun r hr hname => ?_⟩
  simp only [reportModels, List.mem_cons, List.not_mem_nil, or_false] at hr
  rcases hr with rfl | rfl | rfl | rfl | rfl
  · exact absurd hname (by decide)
  · exact absurd hname (by decide)
  · exact absurd hname (by decide)
  · exact absurd hname (by decide)
  · exact ⟨reportBody.sum, rfl, Descriptor.alike_self _⟩

/-- The content type of a request that has a parameter which the document does not write. -/
def charsetHeaders : Headers where
  entries := [("content-type", "application/json; charset=utf-8".toUTF8)]

/-- A content type that is none of the declared ones is read by the arm of its media type, though it
is present and readable: parameters are ignored. -/
theorem parameters_are_ignored :
    reportDocument.resolve "Api" = .ok (reportMetadata, reportWarnings) ∧
      (models reportMetadata).1 = .ok reportModels ∧
      (∃ r, contractModule reportMetadata = .ok r) ∧
        (∃ s, controllerModule reportMetadata = .ok s) ∧
      (∃ t, clientModule reportMetadata = .ok t) ∧
      ∃ e rb, (e, reportOperation) ∈ (operationsOf reportDocument).zip reportMetadata.operations ∧
        e.2.2.2.requestBody = some rb ∧
        charsetHeaders.get? "content-type" = some "application/json; charset=utf-8".toUTF8 ∧
        (∀ c ∈ rb.content, c.1 ≠ "application/json; charset=utf-8") ∧ ¬ charsetHeaders.NamesNone ∧
        ∃ hand k a, handler reportMetadata.refs reportOperation = .ok hand ∧ hand.body = some k ∧
          a ∈ k.arms ∧ a.media = .json ∧ k.taken charsetHeaders = some (.decode a) ∧
          k.taken charsetHeaders ≠ some .missing := by
  have htype : charsetHeaders.contentType? = some "application/json" := by
    have hessence : Resolve.essence "application/json; charset=utf-8" = "application/json" := by
      decide +kernel
    have hvisible : Visible "application/json; charset=utf-8" := by decide +kernel
    have hblank : ¬ Blank "application/json; charset=utf-8" := by decide +kernel
    rw [← hessence]
    exact Headers.contentType?_of_declared hvisible rfl hblank
  have hnamed : ¬ charsetHeaders.NamesNone := by
    rw [← Headers.contentType?_eq_none_iff, htype]
    exact Option.some_ne_none _
  refine ⟨resolve_reportDocument, models_reports, exists_contractModule_reports,
    exists_controllerModule_reports, exists_clientModule_reports, _, _, List.mem_cons_self,
    rfl, rfl, by decide, hnamed, ?_⟩
  have hhandler : ∃ hand k a, handler reportMetadata.refs reportOperation = .ok hand ∧
      hand.body = some k ∧ k.arms[1]? = some a ∧ a.media = .json ∧
      k.arms.find? (·.media.mime == "application/json") = some a :=
    ⟨_, _, _, rfl, rfl, rfl, rfl, rfl⟩
  obtain ⟨hand, k, a, hhand, hk, ha, hmedia, hfind⟩ := hhandler
  have htaken : k.taken charsetHeaders = some (.decode a) := by
    rw [BodyDispatch.taken_of_some htype, hfind]
    rfl
  refine ⟨hand, k, a, hhand, hk, List.mem_of_getElem? ha, hmedia, htaken, ?_⟩
  rw [htaken]
  simp

end Generated

end Emit
end ApiContract
