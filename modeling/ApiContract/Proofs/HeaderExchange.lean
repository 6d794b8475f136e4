import ApiContract.Client.Response
import ApiContract.Proofs.ContentTypes
import ApiContract.Proofs.Digits
import ApiContract.Service.ResponseWriter
import ApiContract.Service.Scalar

/-!
# Header fields between a server and a client

**Input:** a value that is written to a header field of a response, and a client that reads it.

A writer takes every text without controls, beyond ASCII too; a reader takes only ASCII texts.
Numbers and truth values are written in ASCII.

**Results:**

* `isValue_toUTF8_iff`, `valueText?_toUTF8_eq`: which texts can be written, and which of these are
  read back;
* `read?_shown`: a value is read from the text that it is written as;
* `header_exchange`: what a client reads after a value has been written.
-/

namespace ApiContract

/-! ## Texts in header fields -/

/-- A text that can be written to a header field: it has no control characters but tabs. -/
def Writable (s : String) : Prop :=
  ∀ c ∈ s.toList, c.toNat = 9 ∨ 32 ≤ c.toNat ∧ c.toNat ≠ 127

/-- A text of ASCII characters. -/
def Ascii (s : String) : Prop :=
  ∀ c ∈ s.toList, c.toNat < 128

instance (s : String) : Decidable (Writable s) :=
  List.decidableBAll (fun c : Char => c.toNat = 9 ∨ 32 ≤ c.toNat ∧ c.toNat ≠ 127) s.toList

instance (s : String) : Decidable (Ascii s) :=
  List.decidableBAll (fun c : Char => c.toNat < 128) s.toList

section Texts

variable {s : String} {c : Char}

theorem visible_iff : Visible s ↔ Writable s ∧ Ascii s := by
  refine ⟨fun h => ⟨fun c hc => ?_, fun c hc => ?_⟩, fun ⟨hw, ha⟩ c hc => ?_⟩
  · have hrange := h c hc
    omega
  · have hrange := h c hc
    omega
  · have hwritable := hw c hc
    have hascii := ha c hc
    omega

/-- A character beyond ASCII has bytes beyond ASCII only. -/
theorem utf8EncodeChar_of_ge (h : 128 ≤ c.toNat) : String.utf8EncodeChar c ≠ [] ∧
    ∀ b ∈ String.utf8EncodeChar c, 128 ≤ b.toNat := by
  have hval : c.val.toNat = c.toNat := rfl
  unfold String.utf8EncodeChar
  rw [hval]
  dsimp only
  rw [if_neg (by omega)]
  split
  · simp
    omega
  · split
    · simp
      omega
    · simp
      omega

theorem forall_bytes_iff (kind : UInt8 → Prop) : (∀ b ∈ Bytes.toList s.toUTF8, kind b) ↔
    ∀ c ∈ s.toList, ∀ b ∈ String.utf8EncodeChar c, kind b := by
  rw [toList_toUTF8_eq_flatMap]
  simp only [List.mem_flatMap, forall_exists_index, and_imp]
  exact ⟨fun h c hc b hb => h b c hc hb, fun h b c hc hb => h c hc b hb⟩

theorem toNat_code (h : c.toNat < 128) : c.toNat.toUInt8.toNat = c.toNat :=
  UInt8.toNat_ofNat_of_lt' (Nat.lt_trans h (by decide))

/-- A text can be written if it has no control characters but tabs. -/
theorem isValue_toUTF8_iff : Headers.isValue s.toUTF8 = true ↔ Writable s := by
  rw [Headers.isValue, List.all_eq_true, forall_bytes_iff fun b => Headers.isValueByte b = true]
  refine forall₂_congr fun c _ => ?_
  rcases Nat.lt_or_ge c.toNat 128 with hlt | hge
  · rw [utf8EncodeChar_of_lt hlt, List.forall_mem_singleton]
    simp only [Headers.isValueByte, Bool.or_eq_true, Bool.and_eq_true, decide_eq_true_eq,
      UInt8.le_iff_toNat_le, ne_eq, ← UInt8.toNat_inj, toNat_code hlt]
    rfl
  · refine ⟨fun _ => Or.inr (by omega), fun _ b hb => ?_⟩
    have hbyte := (utf8EncodeChar_of_ge hge).2 b hb
    simp only [Headers.isValueByte, Bool.or_eq_true, Bool.and_eq_true, decide_eq_true_eq,
      UInt8.le_iff_toNat_le, ne_eq, ← UInt8.toNat_inj]
    exact Or.inr ⟨Nat.le_trans (by decide) hbyte, fun he => absurd (he ▸ hbyte) (by decide)⟩

theorem visible_of_bytes (h : ∀ b ∈ Bytes.toList s.toUTF8, Headers.isVisible b = true) :
    Visible s := by
  rw [forall_bytes_iff fun b => Headers.isVisible b = true] at h
  intro c hc
  rcases Nat.lt_or_ge c.toNat 128 with hlt | hge
  · have hcode := h c hc c.toNat.toUInt8
      (by rw [utf8EncodeChar_of_lt hlt]; exact List.mem_cons_self)
    simp only [Headers.isVisible, Bool.or_eq_true, Bool.and_eq_true, decide_eq_true_eq,
      UInt8.le_iff_toNat_le, UInt8.lt_iff_toNat_lt, ← UInt8.toNat_inj, toNat_code hlt] at hcode
    exact hcode
  · obtain ⟨hne, hbeyond⟩ := utf8EncodeChar_of_ge hge
    obtain ⟨b, rest, hbytes⟩ := List.exists_cons_of_ne_nil hne
    have hb : b ∈ String.utf8EncodeChar c := by
      rw [hbytes]
      exact List.mem_cons_self
    have hvisible := h c hc b hb
    have hlarge := hbeyond b hb
    simp only [Headers.isVisible, Bool.or_eq_true, Bool.and_eq_true, decide_eq_true_eq,
      UInt8.lt_iff_toNat_lt, ← UInt8.toNat_inj] at hvisible
    rcases hvisible with htab | ⟨-, hsmall⟩
    · exact absurd (htab ▸ hlarge) (by decide)
    · exact absurd (Nat.lt_of_lt_of_le hsmall (by decide)) (Nat.not_lt.2 hlarge)

/-- The texts that are read back from a header field. -/
theorem valueText?_toUTF8_eq (s : String) :
    Headers.valueText? s.toUTF8 = if Visible s then some s else none := by
  split
  · rename_i h
    exact Headers.valueText?_toUTF8 h
  · rename_i h
    unfold Headers.valueText?
    dsimp only
    rw [if_neg]
    rw [List.all_eq_true]
    exact mt visible_of_bytes h

end Texts

/-! ## Values of header fields -/

/-- A value of a type that header fields have. -/
inductive HeaderValue
  | int (n : Int) (fits : Decimal.fitsSigned 32 n = true)
  | long (n : Int) (fits : Decimal.fitsSigned 64 n = true)
  | flag (b : Bool)
  | text (s : String)

namespace HeaderValue

/-- The type of a value. -/
def type : HeaderValue → Primitive
  | int .. => .int
  | long .. => .int64
  | flag _ => .boolean
  | text _ => .string

/-- The value itself. -/
def scalar : HeaderValue → Scalar
  | int n _ => .whole n
  | long n _ => .whole n
  | flag b => .flag b
  | text s => .text s

/-- The text that a value is written as. -/
def shown : HeaderValue → String
  | int n _ => toString n
  | long n _ => toString n
  | flag b => toString b
  | text s => s

/-- A value is read from the text that it is written as. -/
theorem read?_shown (v : HeaderValue) : Scalar.read? v.type v.shown = some v.scalar := by
  cases v with
  | int n fits =>
      have hread : Scalar.readInt? (toString n) = some n := by
        rw [Scalar.readInt?, Decimal.signedBits?_toString fits]
      rw [type, shown, Scalar.read?, hread]
      rfl
  | long n fits =>
      have hread : Scalar.readLong? (toString n) = some n := by
        rw [Scalar.readLong?, Decimal.signedBits?_toString fits]
      rw [type, shown, Scalar.read?, hread]
      rfl
  | flag b => cases b <;> rfl
  | text s => rfl

theorem visible_toString (n : Int) : Visible (toString n) := by
  intro c hc
  rcases Decimal.char_of_toString hc with hdigit | rfl
  · have hrange := Decimal.toNat_of_isDigit hdigit
    omega
  · decide

/-- Numbers and truth values are written in visible ASCII characters. -/
theorem visible_shown {v : HeaderValue} (h : v.type ≠ .string) : Visible v.shown := by
  cases v with
  | int n fits => exact visible_toString n
  | long n fits => exact visible_toString n
  | flag b => cases b <;> decide
  | text s => exact absurd rfl h

end HeaderValue

/-! ## Writing and reading -/

section Exchange

variable {w w' : ResponseWriter} {name name' : String} {s : String}

theorem header_eq_ok_iff : w.header name s = .ok w' ↔
    ((Headers.name? name).isSome = true ∧ Writable s) ∧
      w' = { w with headers := w.headers.insert name s.toUTF8 } := by
  rw [ResponseWriter.header_eq]
  rw [← isValue_toUTF8_iff]
  generalize s.toUTF8 = bytes
  cases Headers.name? name with
  | none => simp
  | some n =>
      by_cases hvalue : Headers.isValue bytes = true
      · simp [hvalue, eq_comm]
      · simp [hvalue]

/-- What a client reads under a name to which a text has been written. -/
theorem optionalHeader_insert {α : Type} {h : Headers} (read : String → Option α)
    (hname : Text.asciiLower name' = Text.asciiLower name) (s : String) :
    Client.optionalHeader (h.insert name s.toUTF8) name' read =
      if Visible s then ((read s).map some).elim (.error (.invalidHeader name')) .ok
      else .error (.invalidHeader name') := by
  rw [Client.optionalHeader, Headers.get?_insert_of_eq h _ hname]
  dsimp only
  rw [valueText?_toUTF8_eq]
  by_cases hvisible : Visible s
  · rw [if_pos hvisible, if_pos hvisible, Option.bind_some]
    cases read s <;> rfl
  · rw [if_neg hvisible, if_neg hvisible]
    rfl

/-- A value that can be written to a header field is read back under its name in any letter case, if
it is written in ASCII; otherwise the client refuses it.  All numbers and truth values can be
written. -/
theorem header_exchange (w : ResponseWriter) (name : String) (v : HeaderValue) :
    ((∃ w', w.header name v.shown = .ok w') ↔
      (Headers.name? name).isSome = true ∧ (v.type = .string → Writable v.shown)) ∧
    ∀ w', w.header name v.shown = .ok w' →
      ∀ name', Text.asciiLower name' = Text.asciiLower name →
        ((v.type = .string → Ascii v.shown) →
          Client.requiredHeader w'.headers name' (Scalar.read? v.type) = .ok v.scalar ∧
          Client.optionalHeader w'.headers name' (Scalar.read? v.type) = .ok (some v.scalar)) ∧
        (¬ (v.type = .string → Ascii v.shown) →
          Client.requiredHeader w'.headers name' (Scalar.read? v.type) =
            .error (.invalidHeader name') ∧
          Client.optionalHeader w'.headers name' (Scalar.read? v.type) =
            .error (.invalidHeader name')) := by
  have hshown : v.type ≠ .string → Writable v.shown ∧ Ascii v.shown :=
    fun htype => visible_iff.1 (HeaderValue.visible_shown htype)
  have hany : ∀ {P : Prop}, (v.type ≠ .string → P) → ((v.type = .string → P) ↔ P) :=
    fun hother => ⟨fun htext => (em _).elim htext hother, fun hp _ => hp⟩
  rw [hany fun h => (hshown h).1, hany fun h => (hshown h).2]
  refine ⟨by simp only [header_eq_ok_iff, exists_and_left, exists_eq, and_true], ?_⟩
  intro w' hw name' hname
  obtain ⟨⟨-, hwritable⟩, rfl⟩ := header_eq_ok_iff.1 hw
  have hread := optionalHeader_insert (h := w.headers) (Scalar.read? v.type) hname v.shown
  rw [HeaderValue.read?_shown] at hread
  rw [Client.requiredHeader, hread]
  refine ⟨fun hascii => ?_, fun hascii => ?_⟩
  · rw [if_pos (visible_iff.2 ⟨hwritable, hascii⟩)]
    exact ⟨rfl, rfl⟩
  · rw [if_neg fun hvisible => hascii (visible_iff.1 hvisible).2]
    exact ⟨rfl, rfl⟩

end Exchange

theorem header_exchange_limit :
    ∃ w', ({ status := 200 } : ResponseWriter).header "X-Limit" "-2147483648" = .ok w' ∧
      Client.requiredHeader w'.headers "x-LIMIT" (Scalar.read? .int) =
        .ok (.whole (-2147483648)) := by
  obtain ⟨hwritten, hread⟩ := header_exchange { status := 200 } "X-Limit"
    (.int (-2147483648) (by decide))
  obtain ⟨w', hw⟩ := hwritten.2 ⟨by decide, nofun⟩
  exact ⟨w', hw, ((hread w' hw "x-LIMIT" (by decide)).1 nofun).1⟩

/-- A text beyond ASCII can be written, and no client reads it. -/
theorem header_loses_text :
    ∃ w', ({ status := 200 } : ResponseWriter).header "x-note" "é" = .ok w' ∧
      Client.requiredHeader w'.headers "x-note" Scalar.readText? =
        .error (.invalidHeader "x-note") ∧
      Client.optionalHeader w'.headers "x-note" Scalar.readText? =
        .error (.invalidHeader "x-note") := by
  refine ⟨_, header_eq_ok_iff.2 ⟨by decide, rfl⟩, ?_⟩
  have hread := optionalHeader_insert (h := {}) Scalar.readText?
    (rfl : _ = Text.asciiLower "x-note")
    "é"
  rw [if_neg (by decide)] at hread
  rw [Client.requiredHeader, hread]
  exact ⟨rfl, rfl⟩

end ApiContract
