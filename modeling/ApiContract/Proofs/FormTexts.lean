import ApiContract.Proofs.FilePaths
import ApiContract.Proofs.Latest
import ApiContract.Proofs.PercentTexts
import ApiContract.Service.Multipart

/-!
# Texts in forms

**Input:** names with texts, which a client sends as a form.

Such fields can be sent in two ways: as bytes that have to be decoded (`Form.encoded`), or as the
parts of a multipart body (`HoldsText`).  One name may be sent several times.

**Results:**

* `Form.ofBytes_encoded`: the fields are read from their encoding, in their order;
* `Form.get?_eq_firsts`: a field is read as from a map that keeps the first text of every name;
* `MultipartForm.reads_alike`: in both ways the same is read of every field, namely what its first
  text stands for.
-/

namespace ApiContract
namespace Form

open Text (pieces)

/-! ## Encoded forms -/

/-- A byte that stands for itself in a form. -/
def isKept (b : UInt8) : Bool :=
  (48 ≤ b && b ≤ 57) || (65 ≤ b && b ≤ 90) || (97 ≤ b && b ≤ 122) || [42, 45, 46, 95].contains b

/-- A byte in a form: itself, a plus sign for a space, or percent-encoded. -/
def encodedByte (b : UInt8) : List UInt8 :=
  if isKept b then [b] else if b = 32 then [43] else Bytes.ofChars (Text.Percent.encodeByte b)

/-- A name or a text in a form. -/
def encodedText (s : String) : List UInt8 :=
  (Bytes.toList s.toUTF8).flatMap encodedByte

def encodedField (e : String × String) : List UInt8 :=
  encodedText e.1 ++ 61 :: encodedText e.2

/-- The bytes of a form. -/
def encoded (f : Form) : List UInt8 :=
  [38].intercalate (f.map encodedField)

section Encoding

variable {b c : UInt8} {s : String}

/-- The bytes between names and texts, and those that stand for others, do not stand for
themselves. -/
theorem not_isKept_of_mem (h : b ∈ [37, 38, 43, 61]) : isKept b = false := by
  simp only [List.mem_cons, List.not_mem_nil, or_false] at h
  rcases h with rfl | rfl | rfl | rfl <;> decide

theorem ne_of_isKept (h : isKept b = true) (hc : c ∈ [37, 38, 43, 61]) : b ≠ c := by
  rintro rfl
  rw [not_isKept_of_mem hc] at h
  cases h

/-- Nothing in a name or a text is taken for what stands between them. -/
theorem not_mem_encodedText (hc : c ∈ [38, 61]) : c ∉ encodedText s := by
  have hother : c ∈ [37, 38, 43, 61] := by
    simp only [List.mem_cons, List.not_mem_nil, or_false] at hc ⊢
    tauto
  have hdigits : ∀ n < 16, (Text.Percent.hexChar n).toNat.toUInt8 ∉ [38, 61] := by decide
  intro hmem
  obtain ⟨b, -, hb⟩ := List.mem_flatMap.1 hmem
  have hlt := b.toNat_lt
  unfold encodedByte at hb
  split at hb
  · rename_i hkept
    exact ne_of_isKept hkept hother (List.mem_singleton.1 hb).symm
  · split at hb
    · rw [List.mem_singleton.1 hb] at hc
      exact absurd hc (by decide)
    · rw [Text.Percent.ofChars_encodeByte] at hb
      simp only [List.mem_cons, List.not_mem_nil, or_false] at hb
      rcases hb with rfl | rfl | rfl
      · exact absurd hc (by decide)
      · exact hdigits _ (by omega) hc
      · exact hdigits _ (by omega) hc

/-! ## Reading encoded forms -/

/-- An encoded byte is read as this byte. -/
theorem decodeOnto_encodedByte (b : UInt8) (done rest : List UInt8) :
    Text.Percent.decodeOnto (fun b => if b = 43 then 32 else b) done (encodedByte b ++ rest) =
      Text.Percent.decodeOnto (fun b => if b = 43 then 32 else b) (b :: done) rest := by
  unfold encodedByte
  split
  · rename_i hkept
    have hpercent : b ≠ 37 := ne_of_isKept hkept (by decide)
    have hplus : b ≠ 43 := ne_of_isKept hkept (by decide)
    rw [List.singleton_append, Text.Percent.decodeOnto_cons_of_ne hpercent, if_neg hplus]
  · split
    · rename_i hspace
      rw [List.singleton_append, Text.Percent.decodeOnto_cons_of_ne (by decide), if_pos rfl, hspace]
    · exact Text.Percent.decodeOnto_encodeByte _ b done rest

theorem decodeOnto_encodedBytes (bs done : List UInt8) :
    Text.Percent.decodeOnto (fun b => if b = 43 then 32 else b) done (bs.flatMap encodedByte) =
      done.reverse ++ bs := by
  induction bs generalizing done with
  | nil => simp [Text.Percent.decodeOnto]
  | cons b bs ih =>
      rw [List.flatMap_cons, decodeOnto_encodedByte, ih]
      simp

theorem decode_encodedText (s : String) : decode (encodedText s) = s := by
  unfold decode encodedText
  dsimp only
  rw [decodeOnto_encodedBytes]
  exact Text.Utf8.decode_toUTF8 s

theorem field_encodedField (e : String × String) : field (encodedField e) = e := by
  have hname : ∀ b ∈ encodedText e.1, decide (b = 61) = false := by
    intro b hb
    rw [decide_eq_false_iff_not]
    rintro rfl
    exact not_mem_encodedText (by decide) hb
  unfold field encodedField
  rw [Text.cut_append hname (by decide)]
  exact Prod.ext (decode_encodedText e.1) (decode_encodedText e.2)

/-- The fields of a form are read from its bytes, in their order. -/
theorem ofBytes_encoded (f : Form) : ofBytes (encoded f) = f := by
  unfold ofBytes
  by_cases hf : f = []
  · subst hf
    rfl
  · have hpieces : pieces (· = 38) (encoded f) = f.map encodedField := by
      refine pieces_eq_iff.2 ⟨by simpa using hf, fun l hl hmem => ?_, rfl⟩
      obtain ⟨e, -, rfl⟩ := List.mem_map.1 hl
      rcases List.mem_append.1 hmem with hname | htext
      · exact not_mem_encodedText (by decide) hname
      · rcases List.mem_cons.1 htext with hmark | htext
        · exact absurd hmark (by decide)
        · exact not_mem_encodedText (by decide) htext
    -- Every field has a mark between its name and its text, so that no piece is empty.
    have hfull : ∀ l ∈ f.map encodedField, (!l.isEmpty) = true := by
      intro l hl
      obtain ⟨e, -, rfl⟩ := List.mem_map.1 hl
      simp [encodedField]
    rw [hpieces, List.filter_eq_self.2 hfull, List.map_map]
    exact List.map_id'' field_encodedField f

end Encoding

/-! ## First texts -/

/-- The fields of a form as a map: of several with one name the first is kept. -/
def firsts (f : Form) : Assoc String String :=
  f.foldl (fun kept e => kept.add e.1 e.2) []

/-- A form is read like a map that keeps the first text of every name. -/
theorem get?_eq_firsts (f : Form) (name : String) : f.get? name = f.firsts.get? name := by
  have hrun : ∀ kept : Assoc String String,
      (f.foldl (fun kept e => kept.add e.1 e.2) kept).get? name =
        (kept.get? name).or (f.lookup name) := by
    induction f with
    | nil => intro kept; simp
    | cons e f ih =>
        intro kept
        rw [List.foldl_cons, ih, Assoc.get?_add, Option.or_assoc]
        congr 1
        exact List.lookup_append.symm
  exact (hrun []).symm

end Form

namespace MultipartForm

/-! ## Parts with texts -/

/-- A part holds the text of a field.  Whether a client calls it a file does not matter. -/
structure HoldsText (p : Part) (e : String × String) : Prop where
  name : p.name = e.1
  data : p.data = e.2.toUTF8

/-- What is read of a field: its first text counts, and an empty one counts as none. -/
structure ReadsFirst {α : Type} (fields : Form) (name : String) (read : String → Option α)
    (optional : Except BodyError (Option α)) (required : Except BodyError α) : Prop where
  absent : (∀ s, (name, s) ∉ fields) →
    optional = .ok none ∧ required = .error (.missingField name)
  empty : ∀ before after, fields = before ++ (name, "") :: after → (∀ s, (name, s) ∉ before) →
    optional = .ok none ∧ required = .error (.missingField name)
  valid : ∀ before after s a, fields = before ++ (name, s) :: after → (∀ s, (name, s) ∉ before) →
    s ≠ "" → read s = some a → optional = .ok (some a) ∧ required = .ok a
  invalid : ∀ before after s, fields = before ++ (name, s) :: after → (∀ s, (name, s) ∉ before) →
    s ≠ "" → read s = none →
    optional = .error (.invalidField name) ∧ required = .error (.invalidField name)

section Texts

variable {α : Type} {fields : Form} {parts : MultipartForm} {name : String}

theorem lookup_of_first {before after : Form} {s : String}
    (hfields : fields = before ++ (name, s) :: after)
    (hfirst : ∀ s, (name, s) ∉ before) : fields.lookup name = some s := by
  have hnone : before.lookup name = none := by
    rw [Assoc.lookup_eq_none_iff_not_mem]
    rintro hmem
    obtain ⟨⟨_, s⟩, he, rfl⟩ := List.mem_map.1 hmem
    exact hfirst s he
  rw [hfields, List.lookup_append, hnone]
  simp

/-- The outcome of reading the first text of a name. -/
theorem readsFirst (fields : Form) (name : String) (read : String → Option α) :
    ReadsFirst fields name read (fields.optional name read) (fields.required name read) where
  absent h := by
    have hnone : fields.get? name = none := by
      rw [Form.get?, Assoc.lookup_eq_none_iff_not_mem]
      intro hmem
      obtain ⟨⟨_, s⟩, he, rfl⟩ := List.mem_map.1 hmem
      exact h s he
    simp [Form.required, Form.optional, hnone, Form.readOptional, Form.present]
  empty before after hfields hfirst := by
    have hget : fields.get? name = some "" := lookup_of_first hfields hfirst
    simp [Form.required, Form.optional, hget, Form.readOptional, Form.present]
  valid before after s a hfields hfirst hs hread := by
    have hget : fields.get? name = some s := lookup_of_first hfields hfirst
    simp [Form.required, Form.optional, hget, Form.readOptional, Form.present, hs, hread]
  invalid before after s hfields hfirst hs hread := by
    have hget : fields.get? name = some s := lookup_of_first hfields hfirst
    simp [Form.required, Form.optional, hget, Form.readOptional, Form.present, hs, hread]

/-- The first part of a name holds the first text of the name. -/
theorem text_eq (h : List.Forall₂ HoldsText parts fields) (name : String) :
    parts.text name = .ok (fields.get? name) := by
  induction h with
  | nil => rfl
  | @cons p e parts fields hp _ ih =>
      obtain ⟨n, s⟩ := e
      by_cases hn : n = name
      · have hpart : MultipartForm.part? (p :: parts) name = some p :=
          List.find?_cons_of_pos (by simp [hp.name, hn])
        rw [text, hpart]
        dsimp only
        rw [hp.data, Text.Utf8.fromUTF8?_toUTF8]
        simp [Form.get?, hn]
      · have hpart : MultipartForm.part? (p :: parts) name = MultipartForm.part? parts name :=
          List.find?_cons_of_neg (by simp [hp.name, hn])
        have hkey : (name == n) = false := by simpa using fun h => hn h.symm
        rw [text, hpart, Form.get?, List.lookup_cons, hkey]
        exact ih

theorem optional_eq (h : List.Forall₂ HoldsText parts fields) (name : String)
    (read : String → Option α) : parts.optional name read = fields.optional name read := by
  rw [optional, text_eq h]
  rfl

theorem required_eq (h : List.Forall₂ HoldsText parts fields) (name : String)
    (read : String → Option α) : parts.required name read = fields.required name read := by
  rw [required, optional_eq h]
  rfl

/-- Of fields that are sent as parts the same is read as of their encoding, from which the first
text of every name is kept, namely what is read of this text. -/
theorem reads_alike (h : List.Forall₂ HoldsText parts fields) (name : String)
    (read : String → Option α) :
    parts.optional name read = (Form.ofBytes (Form.encoded fields)).optional name read ∧
      parts.required name read = (Form.ofBytes (Form.encoded fields)).required name read ∧
      parts.optional name read =
        Form.readOptional name ((Form.ofBytes (Form.encoded fields)).firsts.get? name) read ∧
      ReadsFirst fields name read (parts.optional name read) (parts.required name read) := by
  rw [Form.ofBytes_encoded, optional_eq h, required_eq h, ← Form.get?_eq_firsts]
  exact ⟨rfl, rfl, rfl, readsFirst fields name read⟩

end Texts

/-! ### A name that is sent twice -/

def tagFields : Form :=
  [("tag", "red"), ("tag", "blue"), ("note", "")]

def tagParts : MultipartForm :=
  [{ name := "tag", data := "red".toUTF8 }, { name := "tag", data := "blue".toUTF8 },
    { name := "note", fileName := some "note.txt", data := "".toUTF8 }]

theorem holdsText_tags : List.Forall₂ HoldsText tagParts tagFields :=
  .cons ⟨rfl, rfl⟩ (.cons ⟨rfl, rfl⟩ (.cons ⟨rfl, rfl⟩ .nil))

theorem reads_alike_tags :
    List.Forall₂ HoldsText tagParts tagFields ∧
      tagParts.required "tag" some = (Form.ofBytes (Form.encoded tagFields)).required "tag" some ∧
      tagParts.required "tag" some = .ok "red" ∧
      tagParts.required "note" some = .error (.missingField "note") := by
  obtain ⟨-, hsame, -, htag⟩ := reads_alike holdsText_tags "tag" some
  obtain ⟨-, -, -, hnote⟩ := reads_alike holdsText_tags "note" some
  refine ⟨holdsText_tags, hsame, ?_, ?_⟩
  · exact (htag.valid [] _ "red" "red" rfl (by simp) (by decide) rfl).2
  · exact (hnote.empty [("tag", "red"), ("tag", "blue")] [] rfl (by simp)).2

example : Form.encoded tagFields = Bytes.ofChars "tag=red&tag=blue&note=".toList := by decide

end MultipartForm
end ApiContract
