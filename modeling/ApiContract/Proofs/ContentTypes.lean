import ApiContract.Http.Headers
import ApiContract.Resolve.Bodies
import Mathlib.Data.List.TakeWhile

/-!
# Content types of requests

**Input:** a media type as a document writes it, and the header fields of a request.

What a document calls a content and what a request says of itself are cut down to a media type in
two places: when the document is resolved (`Resolve.essence`), and when the request is read
(`Headers.contentType?`).

**Results:**

* `valueText?_toUTF8`: a text of visible characters is read back from its bytes;
* `contentType?_eq_some_iff`: a request has the media type that the document's reading of the same
  text gives, if this text is not blank;
* `contentType?_eq_none_iff`: it has none if the header is absent, unreadable or blank.
-/

namespace ApiContract

namespace Text

theorem dropWhileEnd_eq_nil_iff {α : Type} {p : α → Bool} {s : List α} :
    dropWhileEnd p s = [] ↔ ∀ a ∈ s, p a = true := by
  unfold dropWhileEnd
  rw [List.reverse_eq_nil_iff, List.dropWhile_eq_nil_iff]
  simp only [List.mem_reverse]

theorem trim_eq_nil_iff {s : List Char} : trim s = [] ↔ ∀ c ∈ s, isBlank c = true := by
  unfold trim
  rw [dropWhileEnd_eq_nil_iff]
  constructor
  · intro h
    -- What is not dropped at the beginning begins with a character that is no blank.
    have hnil : s.dropWhile isBlank = [] := by
      cases hd : s.dropWhile isBlank with
      | nil => rfl
      | cons c rest =>
          have hc : isBlank c = true := h c (by rw [hd]; exact List.mem_cons_self)
          have hn := List.head?_dropWhile_not isBlank s
          rw [hd] at hn
          simp [hc] at hn
    exact List.dropWhile_eq_nil_iff.1 hnil
  · intro h c hc
    exact h c ((List.dropWhile_suffix _).subset hc)

end Text

/-! ## Visible texts -/

/-- A text of characters that may stand in the value of a header and be read from it. -/
def Visible (s : String) : Prop :=
  ∀ c ∈ s.toList, c.toNat = 9 ∨ 32 ≤ c.toNat ∧ c.toNat < 127

instance (s : String) : Decidable (Visible s) :=
  List.decidableBAll (fun c : Char => c.toNat = 9 ∨ 32 ≤ c.toNat ∧ c.toNat < 127) s.toList

/-- The text of a content type has nothing before its parameters. -/
def Blank (s : String) : Prop :=
  ∀ c ∈ s.toList.takeWhile (· ≠ ';'), Text.isBlank c = true

instance (s : String) : Decidable (Blank s) :=
  List.decidableBAll (Text.isBlank · = true) (s.toList.takeWhile (· ≠ ';'))

theorem essence_eq (s : String) :
    Resolve.essence s =
      Text.asciiLower (String.ofList (Text.trim (s.toList.takeWhile (· ≠ ';')))) := by
  have hsame : (fun c : Char => c != ';') = fun c => decide (c ≠ ';') := by
    funext c
    by_cases hc : c = ';' <;> simp [hc]
  unfold Resolve.essence
  rw [hsame]

theorem utf8EncodeChar_of_lt {c : Char} (h : c.toNat < 128) :
    String.utf8EncodeChar c = [c.toNat.toUInt8] := by
  have hsize : c.utf8Size = 1 := by
    have hval : c.val.toNat = c.toNat := rfl
    rw [Char.utf8Size_eq_one_iff, UInt32.le_iff_toNat_le, hval]
    exact Nat.le_of_lt_succ h
  rw [String.utf8EncodeChar_eq_singleton hsize]
  rfl

/-- The bytes of a text are those of its characters. -/
theorem toList_toUTF8_eq_flatMap (s : String) :
    Bytes.toList s.toUTF8 = s.toList.flatMap String.utf8EncodeChar := by
  rw [String.toUTF8_eq_toByteArray, ← String.utf8Encode_toList]
  exact List.toList_data_toByteArray

/-- The bytes of an ASCII text are the codes of its characters. -/
theorem toList_toUTF8 {s : String} (h : ∀ c ∈ s.toList, c.toNat < 128) :
    Bytes.toList s.toUTF8 = s.toList.map fun c => c.toNat.toUInt8 := by
  have hsingle : s.toList.map String.utf8EncodeChar = s.toList.map fun c => [c.toNat.toUInt8] :=
    List.map_congr_left fun c hc => utf8EncodeChar_of_lt (h c hc)
  rw [toList_toUTF8_eq_flatMap, List.flatMap_def, hsingle, ← List.flatMap_def,
    ← List.map_eq_flatMap]

namespace Headers

theorem valueText?_toUTF8 {s : String} (h : Visible s) : valueText? s.toUTF8 = some s := by
  have hlt : ∀ c ∈ s.toList, c.toNat < 128 := by
    intro c hc
    have := h c hc
    omega
  have hbyte : ∀ c ∈ s.toList, c.toNat.toUInt8.toNat = c.toNat := by
    intro c hc
    exact UInt8.toNat_ofNat_of_lt' (Nat.lt_trans (hlt c hc) (by decide))
  have hvisible : ∀ b ∈ Bytes.toList s.toUTF8, isVisible b = true := by
    rw [toList_toUTF8 hlt]
    intro b hb
    obtain ⟨c, hc, rfl⟩ := List.mem_map.1 hb
    have hrange := h c hc
    have hnat := hbyte c hc
    simp only [isVisible, Bool.or_eq_true, Bool.and_eq_true, decide_eq_true_eq,
      UInt8.le_iff_toNat_le, UInt8.lt_iff_toNat_lt, ← UInt8.toNat_inj, hnat]
    exact hrange
  have hchars : (Bytes.toList s.toUTF8).map (fun b => Char.ofNat b.toNat) = s.toList := by
    rw [toList_toUTF8 hlt, List.map_map]
    refine (List.map_congr_left fun c hc => ?_).trans (List.map_id _)
    change Char.ofNat c.toNat.toUInt8.toNat = c
    rw [hbyte c hc]
    exact Char.ofNat_toNat c
  have hall : (Bytes.toList s.toUTF8).all isVisible = true := List.all_eq_true.2 hvisible
  simp only [valueText?, hall, if_true, hchars, String.ofList_toList]

/-! ## Media types of requests -/

variable {h : Headers}

/-- No media type is named: there is no content type, or it cannot be read, or it is blank. -/
def NamesNone (h : Headers) : Prop :=
  h.get? "content-type" = none ∨
    ∃ v, h.get? "content-type" = some v ∧
      (valueText? v = none ∨ ∃ s, valueText? v = some s ∧ Blank s)

/-- A request has the media type that a document has whose content is declared in the same words. -/
theorem contentType?_eq (h : Headers) :
    h.contentType? = ((h.get? "content-type").bind valueText?).bind fun s =>
      if Blank s then none else some (Resolve.essence s) := by
  have hblank : ∀ s, (Text.trim (s.toList.takeWhile (· ≠ ';'))).isEmpty = true ↔ Blank s := by
    intro s
    rw [List.isEmpty_iff, Text.trim_eq_nil_iff]
    exact Iff.rfl
  unfold contentType?
  simp only [hblank, essence_eq]

theorem contentType?_eq_some_iff {text : String} :
    h.contentType? = some text ↔ ∃ v s, h.get? "content-type" = some v ∧ valueText? v = some s ∧
      ¬ Blank s ∧ Resolve.essence s = text := by
  rw [contentType?_eq]
  simp only [Option.bind_eq_some_iff]
  constructor
  · rintro ⟨s, ⟨v, hv, hs⟩, htext⟩
    split at htext
    · cases htext
    · rename_i hblank
      exact ⟨v, s, hv, hs, hblank, Option.some.inj htext⟩
  · rintro ⟨v, s, hv, hs, hblank, rfl⟩
    exact ⟨s, ⟨v, hv, hs⟩, if_neg hblank⟩

theorem contentType?_eq_none_iff : h.contentType? = none ↔ h.NamesNone := by
  rw [contentType?_eq]
  unfold NamesNone
  cases hv : h.get? "content-type" with
  | none => simp
  | some v =>
      cases hs : valueText? v with
      | none => simp [hs]
      | some s => by_cases hblank : Blank s <;> simp [hs, hblank]

/-- A request whose content type is a declared media type in its very words is of this media
type. -/
theorem contentType?_of_declared {mime : String} (hmime : Visible mime)
    (hv : h.get? "content-type" = some mime.toUTF8) (hblank : ¬ Blank mime) :
    h.contentType? = some (Resolve.essence mime) :=
  contentType?_eq_some_iff.2 ⟨_, mime, hv, valueText?_toUTF8 hmime, hblank, rfl⟩

end Headers

/-- What names a media type is not blank. -/
theorem not_blank_of_ofMime? {mime : String} {media : Media}
    (h : Media.ofMime? (Resolve.essence mime) = some media) : ¬ Blank mime := by
  intro hblank
  have hempty : Resolve.essence mime = "" := by
    have htrim : Text.trim (mime.toList.takeWhile (· ≠ ';')) = [] := Text.trim_eq_nil_iff.2 hblank
    rw [essence_eq, htrim]
    rfl
  rw [hempty] at h
  cases h

/-- A media type is known by its name. -/
theorem mime_of_ofMime? {text : String} {media : Media} (h : Media.ofMime? text = some media) :
    media.mime = text := by
  simpa using List.find?_some h

theorem ofMime?_mime (media : Media) : Media.ofMime? media.mime = some media := by
  cases media <;> rfl

theorem mime_injective : Function.Injective Media.mime := by
  intro a b h
  have hb := ofMime?_mime b
  rw [← h, ofMime?_mime] at hb
  exact Option.some.inj hb

end ApiContract
