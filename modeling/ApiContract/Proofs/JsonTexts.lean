import ApiContract.Json.Tree
import ApiContract.Proofs.Digits

/-!
# Reading compact JSON texts

**Input:** a JSON value that holds no double.

Its compact text is read back to its structure.  A string is read back character by character; the
tokens of a text are those of its parts, one after another; and the fold over the tokens of a
structure builds this structure on top of whatever is open.

**Results:**

* `scanToken_quote`: a quoted string is read to its text, whatever its characters;
* `ofTokens?_tokens`: the tokens of a structure are read to the structure;
* `parse?_compact`: the compact text of a value is read to the structure of the value.
-/

namespace ApiContract
namespace Json

open Decimal (head_toDigits isDigit_toDigits)

/-! ## Strings -/

/-- What the written form of a character is read to. -/
def charPiece (c : Char) : Piece :=
  if (escapeChar c).length = 6 then .unit c.toNat else .char c

theorem hexUnit?_of_lt {n : Nat} (h : n < 32) :
    hexUnit? '0' '0' (hexChar (n / 16)) (hexChar (n % 16)) = some n := by
  have hall : ∀ n < 32, hexUnit? '0' '0' (hexChar (n / 16)) (hexChar (n % 16)) = some n := by decide
  exact hall n h

/-- What is read of a string behind one more piece. -/
def behind (p : Piece) (r : Option (List Piece × List Char)) : Option (List Piece × List Char) :=
  r.map fun r => (p :: r.1, r.2)

theorem scanString_short {e c : Char} (hu : e ≠ 'u') (h : shortEscape? e = some c)
    (s : List Char) : scanString ('\\' :: e :: s) = behind (.char c) (scanString s) := by
  rw [scanString, h]
  · cases scanString s <;> rfl
  · rintro _ _ _ _ _ rfl
    exact absurd rfl hu

theorem scanString_control {n : Nat} (h : n < 32) (s : List Char) :
    scanString ('\\' :: 'u' :: '0' :: '0' :: hexChar (n / 16) :: hexChar (n % 16) :: s) =
      behind (.unit n) (scanString s) := by
  rw [scanString, hexUnit?_of_lt h]
  cases scanString s <;> rfl

theorem scanString_plain {c : Char} (hquote : c ≠ '"') (hslash : c ≠ '\\') (h : ¬ c.toNat < 32)
    (s : List Char) : scanString (c :: s) = behind (.char c) (scanString s) := by
  rw [scanString, if_neg (by simp [hslash, h])]
  · rfl
  · exact fun hc => absurd hc hquote
  · exact fun _ _ _ _ _ hc => absurd hc hslash
  · exact fun _ _ hc => absurd hc hslash

/-- The written form of a character is read to one piece. -/
theorem scanString_escapeChar (c : Char) (s : List Char) :
    scanString (escapeChar c ++ s) = behind (charPiece c) (scanString s) := by
  unfold charPiece escapeChar
  -- one case for each form, in the order of `escapeChar`
  by_cases hquote : c = '"'
  · subst hquote
    exact scanString_short (by decide) rfl s
  rw [if_neg hquote]
  by_cases hslash : c = '\\'
  · subst hslash
    exact scanString_short (by decide) rfl s
  rw [if_neg hslash]
  by_cases hb : c.toNat = 8
  · obtain rfl : c = Char.ofNat 8 := Char.toNat_inj.1 hb
    exact scanString_short (by decide) rfl s
  rw [if_neg hb]
  by_cases hf : c.toNat = 12
  · obtain rfl : c = Char.ofNat 12 := Char.toNat_inj.1 hf
    exact scanString_short (by decide) rfl s
  rw [if_neg hf]
  by_cases hn : c = '\n'
  · subst hn
    exact scanString_short (by decide) rfl s
  rw [if_neg hn]
  by_cases hr : c = '\r'
  · subst hr
    exact scanString_short (by decide) rfl s
  rw [if_neg hr]
  by_cases ht : c = '\t'
  · subst ht
    exact scanString_short (by decide) rfl s
  rw [if_neg ht]
  by_cases hcontrol : c.toNat < 32
  · rw [if_pos hcontrol]
    exact scanString_control hcontrol s
  · rw [if_neg hcontrol]
    exact scanString_plain hquote hslash hcontrol s

/-- A string is read up to its closing quote, whatever its characters. -/
theorem scanString_flatMap (cs rest : List Char) :
    scanString (cs.flatMap escapeChar ++ '"' :: rest) = some (cs.map charPiece, rest) := by
  induction cs with
  | nil => rfl
  | cons c cs ih =>
      rw [List.flatMap_cons, List.append_assoc, scanString_escapeChar, ih]
      rfl

/-- A control character is no half of a surrogate pair. -/
theorem pieceText?_charPiece (c : Char) (rest : List Piece) :
    pieceText? (charPiece c :: rest) = (pieceText? rest).map (c :: ·) := by
  unfold charPiece
  split
  · rename_i hlength
    have hcontrol : c.toNat < 32 := by
      refine Nat.lt_of_not_le fun hge => absurd hlength ?_
      unfold escapeChar
      rw [if_neg (Nat.not_lt.2 hge)]
      repeat' split
      all_goals simp
    have hhigh : ¬ (0xD800 ≤ c.toNat ∧ c.toNat < 0xDC00) := by omega
    have hlow : ¬ (0xDC00 ≤ c.toNat ∧ c.toNat < 0xE000) := by omega
    rcases rest with _ | ⟨p | p, rest⟩ <;>
      simp only [pieceText?, hhigh, hlow, if_false, Char.ofNat_toNat]
  · rw [pieceText?]

theorem pieceText?_map (cs : List Char) : pieceText? (cs.map charPiece) = some cs := by
  induction cs with
  | nil => rfl
  | cons c cs ih =>
      rw [List.map_cons, pieceText?_charPiece, ih]
      rfl

/-- A quoted string is read to its text. -/
theorem scanToken_quote (cs rest : List Char) :
    scanToken (quote cs ++ rest) = some (.text (some (String.ofList cs)), rest) := by
  rw [quote, List.cons_append, List.append_assoc]
  change (scanString (cs.flatMap escapeChar ++ '"' :: rest)).map _ = _
  rw [scanString_flatMap, Option.map_some]
  dsimp only
  rw [pieceText?_map]
  rfl

/-! ## Whole numbers -/

/-- What follows a value in a compact text: nothing, or a mark that ends the value. -/
def Ends (rest : List Char) : Prop :=
  ∀ c ∈ rest.head?, c = ',' ∨ c = ']' ∨ c = '\x7d'

theorem ends_nil : Ends [] := by
  simp [Ends]

theorem Ends.not_isDigit {rest : List Char} (h : Ends rest) :
    ∀ c ∈ rest.head?, c.isDigit = false := by
  intro c hc
  rcases h c hc with rfl | rfl | rfl <;> rfl

theorem takeWhile_digits {cs rest : List Char} (hcs : ∀ c ∈ cs, c.isDigit = true)
    (hrest : Ends rest) : (cs ++ rest).takeWhile Char.isDigit = cs ∧
      (cs ++ rest).dropWhile Char.isDigit = rest := by
  have hnot := hrest.not_isDigit
  rw [List.takeWhile_append_of_pos hcs, List.dropWhile_append_of_pos hcs]
  cases rest with
  | nil => simp
  | cons c rest => simp [hnot c rfl]

theorem scanWhole_toDigits (n : Nat) {rest : List Char} (hrest : Ends rest) :
    scanWhole (Nat.toDigits 10 n ++ rest) = some (Nat.toDigits 10 n, rest) := by
  by_cases hn : n = 0
  · subst hn
    have hhead : rest.head?.any Char.isDigit = false := by
      cases hc : rest.head? with
      | none => rfl
      | some c => exact hrest.not_isDigit c hc
    change (if rest.head?.any Char.isDigit then none else some (['0'], rest)) = _
    rw [hhead]
    rfl
  · obtain ⟨htake, hdrop⟩ := takeWhile_digits (isDigit_toDigits n) hrest
    have hne : (Nat.toDigits 10 n).isEmpty = false :=
      List.isEmpty_eq_false_iff.2 Nat.toDigits_ne_nil
    rw [scanWhole]
    · rw [htake, hdrop, hne]
      rfl
    · intro more he
      cases hd : Nat.toDigits 10 n with
      | nil => exact absurd hd Nat.toDigits_ne_nil
      | cons d ds =>
          rw [hd] at he
          obtain ⟨rfl, -⟩ := List.cons.inj he
          exact head_toDigits hn _ hd

theorem scanNumber_toDigits (negative : Bool) (n : Nat) {rest : List Char} (hrest : Ends rest) :
    scanNumber negative (Nat.toDigits 10 n ++ rest) =
      some (⟨negative, Nat.toDigits 10 n, [], none⟩, rest) := by
  have hfraction : scanFraction rest = some ([], rest) := by
    cases rest with
    | nil => rfl
    | cons c rest => rcases hrest c rfl with rfl | rfl | rfl <;> rfl
  have hexponent : scanExponent rest = some (none, rest) := by
    cases rest with
    | nil => rfl
    | cons c rest => rcases hrest c rfl with rfl | rfl | rfl <;> rfl
  simp only [scanNumber, scanWhole_toDigits n hrest, hfraction, hexponent, Option.bind_eq_bind,
    Option.bind_some, Option.pure_def]

/-- A whole number is read as it is written. -/
theorem scanToken_ofInt (n : Int) {rest : List Char} (hrest : Ends rest) :
    scanToken ((Numeral.ofInt n).plainChars ++ rest) = some (.number (.ofInt n), rest) := by
  unfold Numeral.plainChars Numeral.ofInt
  by_cases hn : n < 0
  · rw [if_pos (by simpa using hn), List.cons_append]
    change (scanNumber true (Nat.toDigits 10 n.natAbs ++ rest)).map _ = _
    rw [scanNumber_toDigits true n.natAbs hrest]
    simp [hn]
  · rw [if_neg (by simpa using hn)]
    have hscan := scanNumber_toDigits false n.natAbs hrest
    have hdigit := isDigit_toDigits n.natAbs
    dsimp only
    cases hd : Nat.toDigits 10 n.natAbs with
    | nil => exact absurd hd Nat.toDigits_ne_nil
    | cons d ds =>
        rw [hd] at hscan hdigit
        have hd := hdigit d List.mem_cons_self
        rw [List.cons_append] at hscan ⊢
        -- no other token begins with a digit
        unfold scanToken
        split <;>
          first
          | (rename_i heq
             obtain ⟨rfl, -⟩ := List.cons.inj heq
             exact absurd hd (by decide))
          | (rw [hscan]
             simp [hn])

/-! ## Tokens -/

/-- The tokens of a text without blanks between them. -/
inductive Scans : List Char → List Token → Prop
  | done : Scans [] []
  | token {s rest : List Char} {t : Token} {ts : List Token} (scan : scanToken s = some (t, rest))
      (begins : ∀ c ∈ s.head?, isBlank c = false) (shorter : rest.length < s.length)
      (next : Scans rest ts) : Scans s (t :: ts)

section Scanning

variable {s rest : List Char} {t : Token} {ts : List Token}

theorem Scans.length_le (h : Scans s ts) : ts.length ≤ s.length := by
  induction h with
  | done => exact Nat.le_refl 0
  | token _ _ shorter _ ih => exact Nat.lt_of_le_of_lt ih shorter

theorem Scans.tokensWithin (h : Scans s ts) {size : Nat} (hsize : ts.length ≤ size) :
    tokensWithin size s = some ts := by
  induction h generalizing size with
  | done => cases size <;> rfl
  | @token s rest t ts scan begins shorter next ih =>
      cases size with
      | zero => cases hsize
      | succ size =>
          cases s with
          | nil => cases shorter
          | cons c s =>
              have hdrop : (c :: s).dropWhile isBlank = c :: s := by
                rw [List.dropWhile_cons, begins c rfl]
                rfl
              rw [Json.tokensWithin, hdrop]
              dsimp only
              rw [scan]
              dsimp only
              rw [ih (Nat.le_of_succ_le_succ hsize)]
              rfl

/-- A text has no other tokens than those that are scanned one after another. -/
theorem Scans.tokens (h : Scans s ts) : tokens s = some ts :=
  h.tokensWithin h.length_le

/-- A mark is a token of its own. -/
theorem Scans.mark {c : Char} (h : Scans rest ts) (scan : scanToken (c :: rest) = some (t, rest))
    (begins : isBlank c = false) : Scans (c :: rest) (t :: ts) :=
  .token scan (by simpa using begins) (Nat.lt_succ_self _) h

theorem Scans.quote (cs : List Char) (h : Scans rest ts) :
    Scans (quote cs ++ rest) (.text (some (String.ofList cs)) :: ts) := by
  refine .token (scanToken_quote cs rest) ?_ ?_ h
  · rintro _ ⟨⟩
    rfl
  · rw [Json.quote, List.cons_append, List.append_assoc, List.length_cons]
    simp only [List.length_append, List.length_cons]
    omega

theorem Scans.whole (n : Int) (h : Scans rest ts) (hrest : Ends rest) :
    Scans ((Numeral.ofInt n).plainChars ++ rest) (.number (.ofInt n) :: ts) := by
  have hne : Nat.toDigits 10 n.natAbs ≠ [] := Nat.toDigits_ne_nil
  have hblank : ∀ c, c.isDigit = true → isBlank c = false := by
    intro c hc
    by_cases hb : isBlank c = true
    · simp only [isBlank, Bool.or_eq_true, decide_eq_true_eq] at hb
      rcases hb with ((rfl | rfl) | rfl) | rfl <;> cases hc
    · simpa using hb
  have hdigits := isDigit_toDigits n.natAbs
  refine .token (scanToken_ofInt n hrest) ?_ ?_ h
  · unfold Numeral.plainChars Numeral.ofInt
    dsimp only
    cases hd : Nat.toDigits 10 n.natAbs with
    | nil => exact absurd hd hne
    | cons d ds =>
        rw [hd] at hdigits
        split
        · rintro _ ⟨⟩
          rfl
        · rintro _ ⟨⟩
          exact hblank d (hdigits d List.mem_cons_self)
  · have hpos : 0 < (Numeral.ofInt n).plainChars.length := by
      unfold Numeral.plainChars Numeral.ofInt
      dsimp only
      split
      · exact Nat.succ_pos _
      · exact List.length_pos_iff.2 hne
    rw [List.length_append]
    omega

end Scanning

/-! ## Structures -/

mutual

/-- The tokens of a structure. -/
def Tree.tokens : Tree → List Token
  | .null => [.null]
  | .flag b => [.flag b]
  | .number n => [.number n]
  | .text s => [.text s]
  | .list items => .openList :: (itemTokens items ++ [.closeList])
  | .record members => .openRecord :: (memberTokens members ++ [.closeRecord])

/-- The tokens of items, with commas between them. -/
def itemTokens : List Tree → List Token
  | [] => []
  | t :: ts =>
    match ts with
    | [] => t.tokens
    | _ => t.tokens ++ .comma :: itemTokens ts

/-- The tokens of members, with commas between them. -/
def memberTokens : List (Option String × Tree) → List Token
  | [] => []
  | (k, t) :: ms =>
    match ms with
    | [] => .text k :: .colon :: t.tokens
    | _ => .text k :: .colon :: (t.tokens ++ .comma :: memberTokens ms)

end

theorem itemTokens_cons (t u : Tree) (ts : List Tree) :
    itemTokens (t :: u :: ts) = t.tokens ++ .comma :: itemTokens (u :: ts) :=
  rfl

theorem memberTokens_cons (k : Option String) (t : Tree) (m : Option String × Tree)
    (ms : List (Option String × Tree)) : memberTokens ((k, t) :: m :: ms) =
      .text k :: .colon :: (t.tokens ++ .comma :: memberTokens (m :: ms)) :=
  rfl

section Folding

/-- What is made of tokens from a state on. -/
def fold (r : Reading) (ts : List Token) : Option Reading :=
  ts.foldlM Reading.step r

/-- Where a list was just opened, a value is taken as anywhere else. -/
theorem fold_valueOrClose (t : Tree) (frames : List Frame) (rest : List Token) :
    fold ⟨frames, .valueOrClose⟩ (t.tokens ++ rest) = fold ⟨frames, .value⟩ (t.tokens ++ rest) := by
  cases t <;> rfl

mutual

/-- The tokens of a structure build it on top of what is open. -/
theorem fold_tokens : (t : Tree) → (frames : List Frame) → (rest : List Token) →
    fold ⟨frames, .value⟩ (t.tokens ++ rest) = fold ⟨frames, .afterValue t⟩ rest
  | .null, frames, rest => rfl
  | .flag b, frames, rest => rfl
  | .number n, frames, rest => rfl
  | .text s, frames, rest => rfl
  | .list [], frames, rest => rfl
  | .list (t :: ts), frames, rest => by
      have hitems := fold_items (t :: ts) (List.cons_ne_nil t ts) [] frames rest
      rw [Tree.tokens, List.cons_append, List.append_assoc]
      refine Eq.trans ?_ hitems
      change fold ⟨.list [] :: frames, .valueOrClose⟩ _ = _
      cases ts with
      | nil => exact fold_valueOrClose t _ _
      | cons u us =>
          rw [itemTokens_cons, List.append_assoc, List.append_assoc]
          exact fold_valueOrClose t _ _
  | .record [], frames, rest => rfl
  | .record ((k, t) :: ms), frames, rest => by
      have hmembers := fold_members ((k, t) :: ms) (List.cons_ne_nil _ ms) [] frames rest
      rw [Tree.tokens, List.cons_append, List.append_assoc]
      refine Eq.trans ?_ hmembers
      change fold ⟨frames, .keyOrClose⟩ _ = _
      cases ms with
      | nil => rfl
      | cons m ms => rfl

/-- The tokens of items go on with the list that is open, and end it. -/
theorem fold_items : (ts : List Tree) → ts ≠ [] → (done : List Tree) → (frames : List Frame) →
    (rest : List Token) →
    fold ⟨.list done :: frames, .value⟩ (itemTokens ts ++ .closeList :: rest) =
      fold ⟨frames, .afterValue (.list (done.reverse ++ ts))⟩ rest
  | [], hne, _, _, _ => absurd rfl hne
  | [t], _, done, frames, rest => by
      rw [itemTokens, fold_tokens t]
      change fold ⟨frames, .afterValue (.list (t :: done).reverse)⟩ rest = _
      rw [List.reverse_cons]
  | t :: u :: us, _, done, frames, rest => by
      have hmore := fold_items (u :: us) (List.cons_ne_nil u us) (t :: done) frames rest
      rw [List.reverse_cons, List.append_assoc] at hmore
      rw [itemTokens_cons, List.append_assoc, fold_tokens t]
      exact hmore

/-- The tokens of members go on with the record that is open, and end it. -/
theorem fold_members : (ms : List (Option String × Tree)) → ms ≠ [] →
    (done : List (Option String × Tree)) → (frames : List Frame) → (rest : List Token) →
    fold ⟨frames, .key done⟩ (memberTokens ms ++ .closeRecord :: rest) =
      fold ⟨frames, .afterValue (.record (done.reverse ++ ms))⟩ rest
  | [], hne, _, _, _ => absurd rfl hne
  | [(k, t)], _, done, frames, rest => by
      rw [memberTokens]
      change fold ⟨.record done k :: frames, .value⟩ (t.tokens ++ .closeRecord :: rest) = _
      rw [fold_tokens t]
      change fold ⟨frames, .afterValue (.record ((k, t) :: done).reverse)⟩ rest = _
      rw [List.reverse_cons]
  | (k, t) :: m :: ms, _, done, frames, rest => by
      have hmore := fold_members (m :: ms) (List.cons_ne_nil m ms) ((k, t) :: done) frames rest
      rw [List.reverse_cons, List.append_assoc] at hmore
      rw [memberTokens_cons, List.cons_append, List.cons_append, List.append_assoc]
      change fold ⟨.record done k :: frames, .value⟩ (t.tokens ++ _) = _
      rw [fold_tokens t]
      exact hmore

end

/-- The tokens of a structure are read to the structure. -/
theorem ofTokens?_tokens (t : Tree) : Tree.ofTokens? t.tokens = some t := by
  have h := fold_tokens t [] []
  rw [List.append_nil] at h
  exact congrArg (Option.bind · Reading.result?) h

end Folding

/-! ## Values -/

/-- The written form of a whole number.  What a double is written as is left open. -/
def Number.numeral : Number → Numeral
  | .whole n => .ofInt n
  | .real _ => default

mutual

/-- The structure of the text of a value. -/
def Value.tree : Value → Tree
  | .null => .null
  | .flag b => .flag b
  | .number n => .number n.numeral
  | .text s => .text (some s)
  | .list items => .list (itemTrees items)
  | .record members => .record (memberTrees members)

/-- The structures of items. -/
def itemTrees : List Value → List Tree
  | [] => []
  | v :: vs => v.tree :: itemTrees vs

/-- The structures of members. -/
def memberTrees : List (String × Value) → List (Option String × Tree)
  | [] => []
  | (k, v) :: ms => (some k, v.tree) :: memberTrees ms

end

/-- A value that holds no double. -/
inductive Whole : Value → Prop
  | null : Whole .null
  | flag (b : Bool) : Whole (.flag b)
  | number (n : Int) : Whole (.ofInt n)
  | text (s : String) : Whole (.text s)
  | list {items : List Value} (h : ∀ v ∈ items, Whole v) : Whole (.list items)
  | record {members : List (String × Value)} (h : ∀ m ∈ members, Whole m.2) :
      Whole (.record members)

section Values

variable {v : Value} {rest : List Char} {ts : List Token}

theorem ends_cons {c : Char} (h : c = ',' ∨ c = ']' ∨ c = '\x7d') (rest : List Char) :
    Ends (c :: rest) := by
  rintro _ ⟨⟩
  exact h

/-- The text of a value has the tokens of its structure, before whatever follows. -/
def ScansAsTree (v : Value) : Prop :=
  ∀ {rest ts}, Scans rest ts → Ends rest → Scans (v.chars ++ rest) (v.tree.tokens ++ ts)

theorem scans_items {items : List Value} (ih : ∀ v ∈ items, ScansAsTree v) (h : Scans rest ts) :
    Scans (itemChars items ++ ']' :: rest) (itemTokens (itemTrees items) ++ .closeList :: ts) := by
  have hclose : Scans (']' :: rest) (.closeList :: ts) := h.mark rfl rfl
  induction items with
  | nil => exact hclose
  | cons v vs ihs =>
      obtain ⟨hv, hvs⟩ := List.forall_mem_cons.1 ih
      cases vs with
      | nil => exact hv hclose (ends_cons (by simp) _)
      | cons w ws =>
          have hmore : Scans (',' :: (itemChars (w :: ws) ++ ']' :: rest))
              (.comma :: (itemTokens (itemTrees (w :: ws)) ++ .closeList :: ts)) :=
            (ihs hvs).mark rfl rfl
          have hfirst := hv hmore (ends_cons (by simp) _)
          have hchars : itemChars (v :: w :: ws) = v.chars ++ ',' :: itemChars (w :: ws) := rfl
          have htokens : itemTokens (itemTrees (v :: w :: ws)) =
            v.tree.tokens ++ .comma :: itemTokens (itemTrees (w :: ws)) := rfl
          rw [hchars, htokens, List.append_assoc, List.append_assoc]
          exact hfirst

theorem scans_member {k : String} (hv : ScansAsTree v) (h : Scans rest ts) (hrest : Ends rest) :
    Scans (quote k.toList ++ ':' :: (v.chars ++ rest))
      (.text (some k) :: .colon :: (v.tree.tokens ++ ts)) := by
  have hcolon : Scans (':' :: (v.chars ++ rest)) (.colon :: (v.tree.tokens ++ ts)) :=
    (hv h hrest).mark rfl rfl
  have hquote := hcolon.quote k.toList
  rwa [String.ofList_toList] at hquote

theorem scans_members {members : List (String × Value)} (ih : ∀ m ∈ members, ScansAsTree m.2)
    (h : Scans rest ts) : Scans (memberChars members ++ '\x7d' :: rest)
      (memberTokens (memberTrees members) ++ .closeRecord :: ts) := by
  have hclose : Scans ('\x7d' :: rest) (.closeRecord :: ts) := h.mark rfl rfl
  induction members with
  | nil => exact hclose
  | cons m ms ihs =>
      obtain ⟨hv, hms⟩ := List.forall_mem_cons.1 ih
      obtain ⟨k, v⟩ := m
      cases ms with
      | nil =>
          have hlast := scans_member (k := k) hv hclose (ends_cons (by simp) _)
          have hchars : memberChars [(k, v)] = quote k.toList ++ ':' :: v.chars := rfl
          rw [hchars, List.append_assoc]
          exact hlast
      | cons m ms =>
          have hmore : Scans (',' :: (memberChars (m :: ms) ++ '\x7d' :: rest))
              (.comma :: (memberTokens (memberTrees (m :: ms)) ++ .closeRecord :: ts)) :=
            (ihs hms).mark rfl rfl
          have hfirst := scans_member (k := k) hv hmore (ends_cons (by simp) _)
          have hchars : memberChars ((k, v) :: m :: ms) =
            quote k.toList ++ ':' :: (v.chars ++ ',' :: memberChars (m :: ms)) := rfl
          have htokens : memberTokens (memberTrees ((k, v) :: m :: ms)) =
            .text (some k) :: .colon ::
              (v.tree.tokens ++ .comma :: memberTokens (memberTrees (m :: ms))) := rfl
          simp only [hchars, htokens, List.append_assoc, List.cons_append]
          exact hfirst

theorem scansAsTree (hv : Whole v) : ScansAsTree v := by
  intro rest ts h hrest
  induction hv generalizing rest ts with
  | null => exact .token rfl (by rintro _ ⟨⟩; rfl) (by simp [Value.chars]; omega) h
  | flag b =>
      cases b with
      | false => exact .token rfl (by rintro _ ⟨⟩; rfl) (by simp [Value.chars]; omega) h
      | true => exact .token rfl (by rintro _ ⟨⟩; rfl) (by simp [Value.chars]; omega) h
  | number n => exact h.whole n hrest
  | text s =>
      have hquote := h.quote s.toList
      rwa [String.ofList_toList] at hquote
  | @list items _ ih =>
      have hopen : Scans ('[' :: (itemChars items ++ ']' :: rest))
          (.openList :: (itemTokens (itemTrees items) ++ .closeList :: ts)) :=
        (scans_items (fun v hv => ih v hv) h).mark rfl rfl
      simp only [Value.chars, Value.tree, Tree.tokens, List.cons_append, List.append_assoc,
        List.nil_append]
      exact hopen
  | @record members _ ih =>
      have hopen : Scans ('\x7b' :: (memberChars members ++ '\x7d' :: rest))
          (.openRecord :: (memberTokens (memberTrees members) ++ .closeRecord :: ts)) :=
        (scans_members (fun m hm => ih m hm) h).mark rfl rfl
      simp only [Value.chars, Value.tree, Tree.tokens, List.cons_append, List.append_assoc,
        List.nil_append]
      exact hopen

/-- The compact text of a value is read to the structure of the value. -/
theorem parse?_compact (hv : Whole v) : Tree.parse? v.compact = some v.tree := by
  have hscans := scansAsTree hv .done ends_nil
  rw [List.append_nil, List.append_nil] at hscans
  rw [Tree.parse?, Value.compact, String.toList_ofList, hscans.tokens]
  exact ofTokens?_tokens v.tree

end Values

end Json
end ApiContract
