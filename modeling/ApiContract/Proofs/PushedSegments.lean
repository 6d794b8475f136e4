import ApiContract.Proofs.PercentTexts
import ApiContract.Proofs.Templates
import ApiContract.Proofs.Words
import ApiContract.Url.Basic

/-!
# Segments that are put to paths

**Input:** the path of a URL, and values that are put to its end one after another.

A value should become one segment, which is decoded to the characters of the value.  But dots are
left out, tabs and line ends are dropped, an empty segment at the beginning is lost when another
follows, and a drive letter with a bar is written with a colon.

**Results:**

* `push_cases`, `pushAll_cases`: a value adds one segment, or the path does not get longer; likewise
  for many values;
* `decoded_pushAll`, `faithful_of_decoded`: the segments that are added stand for given texts if
  these are the values but for what is dropped and left out (`Faithful`), and only then;
* `settled_path`: the path of a URL that is read has the form for which this holds.
-/

namespace ApiContract
namespace Url

open Text.Percent

/-! ## Segments and their values -/

/-- A value without the characters that are passed over. -/
def withoutSkipped (value : List Char) : List Char :=
  value.filter (!Segments.isSkipped ·)

/-- One or two dots. -/
def IsDots (s : List Char) : Prop :=
  s = ['.'] ∨ s = ['.', '.']

instance (s : List Char) : Decidable (IsDots s) :=
  inferInstanceAs (Decidable (_ ∨ _))

/-- A drive letter that is written with a bar. -/
def IsBarDrive (s : List Char) : Prop :=
  ∃ c, c.isAlpha = true ∧ s = [c, '|']

namespace Segments

/-- What the segments of a path stand for. -/
def decoded (ps : Segments) : List (List UInt8) :=
  ps.map fun s => decode (Bytes.ofChars s)

/-- A path without an empty segment at its end. -/
def dropEmptyEnd (ps : Segments) : Segments :=
  if ps.getLast? = some [] then ps.dropLast else ps

/-- The segments behind which another one is put: an empty one alone does not count. -/
def rooted (ps : Segments) : Segments :=
  if ps = [[]] then [] else ps

/-- The segment that a value becomes behind others. -/
def segmentOf (k : Kind) (before : Segments) (value : List Char) : Segment :=
  let s := withoutSkipped value
  if k = .file ∧ before = [] ∧ Segment.isDrive s then s.take 1 ++ [':']
  else encode k.isUnsafeInSegment s

section Characters

variable {k : Kind} {c : Char} {s v : List Char}

theorem isUnsafeInSegment_percent (k : Kind) : k.isUnsafeInSegment '%' = true := by
  cases k <;> rfl

theorem isUnsafeInSegment_dot (k : Kind) : k.isUnsafeInSegment '.' = false := by
  cases k <;> rfl

theorem plain_of_isAlpha (k : Kind) (hc : c.isAlpha = true) :
    k.isUnsafeInSegment c = false ∧ c.toNat < 0x80 := by
  have halphanum : c.isAlphanum = true := by simp [Char.isAlphanum, hc]
  refine ⟨Naming.forall_of_ascii (fun c => k.isUnsafeInSegment c = false) ?_ halphanum,
    Naming.toNat_lt_of_isAlphanum halphanum⟩
  cases k <;> decide

theorem isDrive_iff : Segment.isDrive s = true ↔
    ∃ c d, c.isAlpha = true ∧ (d = ':' ∨ d = '|') ∧ s = [c, d] := by
  constructor
  · intro h
    unfold Segment.isDrive at h
    split at h
    · rename_i c d
      simp only [Bool.and_eq_true, Bool.or_eq_true, decide_eq_true_eq] at h
      exact ⟨c, d, h.1, h.2, rfl⟩
    · cases h
  · rintro ⟨c, d, hc, hd, rfl⟩
    simp only [Segment.isDrive, Bool.and_eq_true, Bool.or_eq_true, decide_eq_true_eq]
    exact ⟨hc, hd⟩

/-- A drive letter is not encoded. -/
theorem plain_of_isDrive (k : Kind) (h : Segment.isDrive s = true) :
    ∀ c ∈ s, k.isUnsafeInSegment c = false ∧ c.toNat < 0x80 := by
  obtain ⟨c, d, hc, hd, rfl⟩ := isDrive_iff.1 h
  rintro b hb
  rcases List.mem_pair.1 hb with rfl | rfl
  · exact plain_of_isAlpha k hc
  · rcases hd with rfl | rfl
    · cases k <;> decide
    · cases k <;> decide

theorem isDrive_encode (k : Kind) (s : List Char) :
    Segment.isDrive (encode k.isUnsafeInSegment s) = Segment.isDrive s := by
  rw [Bool.eq_iff_iff]
  constructor
  · intro h
    have hs := (encode_eq_iff (isUnsafeInSegment_percent k) (plain_of_isDrive k h)).1 rfl
    rwa [← hs] at h
  · intro h
    rwa [encode_of_plain (plain_of_isDrive k h)]

theorem dots_encode_eq_iff (k : Kind) {t : List Char} (ht : IsDots t) :
    Segment.dots (encode k.isUnsafeInSegment s) = t ↔ s = t := by
  have hplain : ∀ c ∈ t, k.isUnsafeInSegment c = false ∧ c.toNat < 0x80 := by
    intro c hc
    obtain rfl : c = '.' := by
      rcases ht with rfl | rfl
      · exact List.mem_singleton.1 hc
      · simpa using hc
    exact ⟨isUnsafeInSegment_dot k, by decide⟩
  rw [dots_encode (isUnsafeInSegment_dot k) (isUnsafeInSegment_percent k),
    encode_eq_iff (isUnsafeInSegment_percent k) hplain]

end Characters

/-! ## One segment -/

section Push

variable {k : Kind} {ps : Segments} {v x : List Char}

theorem settled_file_cons (c : Char) (cs : List Char) (rest : Segments) :
    settled .file ((c :: cs) :: rest) = (c :: cs) :: rest :=
  rfl

theorem settled_of_ne (hk : k ≠ .file) (ps : Segments) : settled k ps = ps :=
  if_neg hk

/-- The path of a file has no empty segment at its beginning, unless it is the only one. -/
theorem settled_file_begins (ps : Segments) :
    settled .file ps = [[]] ∨ ∃ c cs rest, settled .file ps = (c :: cs) :: rest := by
  induction ps with
  | nil => exact Or.inl rfl
  | cons p rest ih =>
      cases p with
      | nil => exact ih
      | cons c cs => exact Or.inr ⟨c, cs, rest, rfl⟩

theorem settled_settled (k : Kind) (ps : Segments) : settled k (settled k ps) = settled k ps := by
  by_cases hk : k = .file
  · subst hk
    rcases settled_file_begins ps with he | ⟨c, cs, rest, he⟩
    · rw [he]
      rfl
    · rw [he]
      rfl
  · exact settled_of_ne hk _

theorem length_settled_le (k : Kind) (hne : ps ≠ []) : (settled k ps).length ≤ ps.length := by
  by_cases hk : k = .file
  · subst hk
    induction ps with
    | nil => exact absurd rfl hne
    | cons p rest ih =>
        cases p with
        | cons c cs => exact Nat.le_refl _
        | nil =>
            cases rest with
            | nil => exact Nat.le_refl _
            | cons q rest => exact Nat.le_succ_of_le (ih (List.cons_ne_nil _ _))
  · rw [settled_of_ne hk]

/-- A segment that is put behind a path is added to it. -/
theorem settled_rooted_append (h : settled k ps = ps) (x : Segment) :
    settled k (rooted ps ++ [x]) = rooted ps ++ [x] := by
  by_cases hk : k = .file
  · subst hk
    rcases h ▸ settled_file_begins ps with rfl | ⟨c, cs, rest, rfl⟩
    · cases x <;> rfl
    · rfl
  · exact settled_of_ne hk _

theorem push_of_ne (h : ¬ (v = ['.'] ∨ v = ['.', '.'])) :
    push k ps v =
      settled k (close k (rooted ps) (encode k.isUnsafeInSegment (withoutSkipped v)) true) :=
  if_neg h

/-- A value without dots is added to the path as one segment. -/
theorem push_of_not_dots (h : settled k ps = ps) (hv : ¬ IsDots (withoutSkipped v)) :
    push k ps v = rooted ps ++ [segmentOf k (rooted ps) v] := by
  have hvalue : ¬ (v = ['.'] ∨ v = ['.', '.']) := by
    rintro (rfl | rfl)
    · exact hv (Or.inl rfl)
    · exact hv (Or.inr rfl)
  have hone : ¬ withoutSkipped v = ['.'] := fun he => hv (Or.inl he)
  have htwo : ¬ withoutSkipped v = ['.', '.'] := fun he => hv (Or.inr he)
  rw [push_of_ne hvalue, close, if_neg (mt (dots_encode_eq_iff k (Or.inr rfl)).1 htwo),
    if_neg (mt (dots_encode_eq_iff k (Or.inl rfl)).1 hone), isDrive_encode, segmentOf]
  split
  · rename_i hdrive
    rw [encode_of_plain (plain_of_isDrive k hdrive.2.2), settled_rooted_append h]
  · exact settled_rooted_append h _

/-- Two dots take the last segment away, unless there is none or it is a drive letter. -/
theorem shorten_cases (ps : Segments) : shorten ps = ps ∨ (shorten ps).length < ps.length := by
  unfold shorten
  cases hlast : ps.getLast? with
  | none => exact Or.inl (List.getLast?_eq_none_iff.1 hlast).symm
  | some p =>
      have hne : ps ≠ [] := by
        rintro rfl
        cases hlast
      dsimp only
      split
      · exact Or.inl rfl
      · refine Or.inr ?_
        rw [List.length_dropLast]
        exact Nat.sub_lt (List.length_pos_of_ne_nil hne) Nat.one_pos

/-- Dots add an empty segment, unless they are left out or take a segment away. -/
theorem push_of_dots (h : settled k ps = ps) (hv : IsDots (withoutSkipped v)) :
    (push k ps v).length ≤ (rooted ps).length ∨ push k ps v = rooted ps ++ [[]] := by
  by_cases hvalue : v = ['.'] ∨ v = ['.', '.']
  · have hpush : push k ps v = ps := if_pos hvalue
    by_cases hps : ps = [[]]
    · subst hps
      exact Or.inr hpush
    · rw [hpush, rooted, if_neg hps]
      exact Or.inl (Nat.le_refl _)
  rw [push_of_ne hvalue]
  rcases hv with hone | htwo
  · have htwo : ¬ withoutSkipped v = ['.', '.'] := by
      rw [hone]
      decide
    rw [close, if_neg (mt (dots_encode_eq_iff k (Or.inr rfl)).1 htwo),
      if_pos ((dots_encode_eq_iff k (Or.inl rfl)).2 hone), if_pos rfl]
    exact Or.inr (settled_rooted_append h [])
  · rw [close, if_pos ((dots_encode_eq_iff k (Or.inr rfl)).2 htwo), if_pos rfl]
    rcases shorten_cases (rooted ps) with hs | hs
    · rw [hs]
      exact Or.inr (settled_rooted_append h [])
    · refine Or.inl ((length_settled_le k (by simp)).trans ?_)
      simpa using hs

/-- What a value adds to a path: dots an empty segment, anything else its own. -/
def Adds (k : Kind) (before : Segments) (v x : List Char) : Prop :=
  IsDots (withoutSkipped v) ∧ x = [] ∨ ¬ IsDots (withoutSkipped v) ∧ x = segmentOf k before v

/-- A value adds one segment to a path, or the path does not get longer. -/
theorem push_cases (h : settled k ps = ps) (v : List Char) :
    (push k ps v).length ≤ (rooted ps).length ∨
      ∃ x, push k ps v = rooted ps ++ [x] ∧ Adds k (rooted ps) v x := by
  by_cases hv : IsDots (withoutSkipped v)
  · exact (push_of_dots h hv).imp_right fun hpush => ⟨[], hpush, Or.inl ⟨hv, rfl⟩⟩
  · exact Or.inr ⟨_, push_of_not_dots h hv, Or.inr ⟨hv, rfl⟩⟩

theorem settled_push (h : settled k ps = ps) (v : List Char) :
    settled k (push k ps v) = push k ps v := by
  unfold push
  split
  · exact h
  · exact settled_settled k _

end Push

/-! ## Many segments -/

/-- Puts values to the end of a path, one after another. -/
def pushAll (k : Kind) (ps : Segments) (vs : List (List Char)) : Segments :=
  vs.foldl (push k) ps

/-- What values add to a path, each behind those before it.  An empty segment alone is followed by
no other. -/
inductive AddsAll (k : Kind) : Segments → List (List Char) → Segments → Prop
  | nil {before : Segments} : AddsAll k before [] []
  | cons {before : Segments} {v x : List Char} {vs : List (List Char)} {xs : Segments}
      (hx : Adds k before v x) (hlone : before ++ [x] = [[]] → vs = [])
      (hrest : AddsAll k (before ++ [x]) vs xs) : AddsAll k before (v :: vs) (x :: xs)

section PushAll

variable {k : Kind} {ps xs : Segments} {v : List Char} {vs : List (List Char)}

theorem rooted_of_ne (h : ps ≠ [[]]) : rooted ps = ps :=
  if_neg h

theorem length_rooted_le (ps : Segments) : (rooted ps).length ≤ ps.length := by
  unfold rooted
  split
  · exact Nat.zero_le _
  · exact Nat.le_refl _

theorem AddsAll.length_eq {before : Segments} (h : AddsAll k before vs xs) :
    xs.length = vs.length := by
  induction h with
  | nil => rfl
  | cons _ _ _ ih => exact congrArg (· + 1) ih

/-- Values add a segment each, or the path does not get as long as that. -/
theorem pushAll_cases (h : settled k ps = ps) (hne : vs ≠ []) :
    (pushAll k ps vs).length < (rooted ps).length + vs.length ∨
      ∃ xs, pushAll k ps vs = rooted ps ++ xs ∧ AddsAll k (rooted ps) vs xs := by
  induction vs generalizing ps with
  | nil => exact absurd rfl hne
  | cons v vs ih =>
      have hstep : pushAll k ps (v :: vs) = pushAll k (push k ps v) vs := rfl
      rw [hstep, List.length_cons]
      have hfirst := push_cases h v
      have hrooted := length_rooted_le (push k ps v)
      have hlength : (push k ps v).length ≤ (rooted ps).length + 1 := by
        rcases hfirst with hshort | ⟨x, hx, -⟩
        · exact Nat.le_succ_of_le hshort
        · rw [hx, List.length_append, List.length_singleton]
      by_cases hvs : vs = []
      · subst hvs
        rcases hfirst with hshort | ⟨x, hx, hadds⟩
        · exact Or.inl (Nat.lt_succ_of_le hshort)
        · exact Or.inr ⟨[x], hx, .cons hadds (fun _ => rfl) .nil⟩
      rcases ih (settled_push h v) hvs with hshort | ⟨xs, hxs, hadds⟩
      · exact Or.inl (by omega)
      have hall := congrArg List.length hxs
      rw [List.length_append, hadds.length_eq] at hall
      rcases hfirst with hshort | ⟨x, hx, hfirst⟩
      · exact Or.inl (by omega)
      by_cases hlone : rooted ps ++ [x] = [[]]
      · have hnone : rooted (push k ps v) = [] := by
          rw [hx, hlone]
          rfl
        rw [hnone, List.length_nil] at hall
        exact Or.inl (by omega)
      · rw [hx, rooted_of_ne hlone] at hxs hadds
        refine Or.inr ⟨x :: xs, ?_, .cons hfirst (fun he => absurd he hlone) hadds⟩
        rw [hx, hxs, List.append_assoc, List.singleton_append]

theorem length_pushAll_le (h : settled k ps = ps) (hne : vs ≠ []) :
    (pushAll k ps vs).length ≤ (rooted ps).length + vs.length := by
  rcases pushAll_cases h hne with hshort | ⟨xs, hxs, hadds⟩
  · exact Nat.le_of_lt hshort
  · rw [hxs, List.length_append, hadds.length_eq]

/-- If no value is left out, every one adds its segment. -/
theorem pushAll_of_addsAll (h : settled k ps = ps) (hne : vs ≠ [])
    (hv : ∀ v ∈ vs, ¬ IsDots (withoutSkipped v)) (hx : AddsAll k (rooted ps) vs xs) :
    pushAll k ps vs = rooted ps ++ xs := by
  induction vs generalizing ps xs with
  | nil => exact absurd rfl hne
  | cons v vs ih =>
      obtain ⟨hfirst, hrest⟩ := List.forall_mem_cons.1 hv
      have hpush := push_of_not_dots h hfirst
      cases hx with
      | @cons _ _ x _ xs hx hlone hxs =>
          obtain rfl : x = segmentOf k (rooted ps) v := by
            rcases hx with ⟨hdots, -⟩ | ⟨-, hx⟩
            · exact absurd hdots hfirst
            · exact hx
          have hstep : pushAll k ps (v :: vs) = pushAll k (push k ps v) vs := rfl
          rw [hstep, ← List.singleton_append, ← List.append_assoc, ← hpush]
          by_cases hvs : vs = []
          · subst hvs
            cases hxs
            exact (List.append_nil _).symm
          · have hsame : rooted (push k ps v) = push k ps v := by
              rw [hpush]
              exact rooted_of_ne (mt hlone hvs)
            have hbehind := ih (settled_push h v) hvs hrest (by rwa [hsame, hpush])
            rwa [hsame] at hbehind

end PushAll

/-! ## What the segments stand for -/

/-- Values that are put behind segments as what they should stand for: they are this but for
characters that are passed over, and are no dots; and where they are the first of the path, no empty
one is followed by another, and no drive letter of a file is written with a bar. -/
structure Faithful (k : Kind) (before : Segments) (vs ws : List (List Char)) : Prop where
  kept : vs.map withoutSkipped = ws
  noDots : ∀ w ∈ ws, ¬ IsDots w
  noEmpty : before = [] → 2 ≤ ws.length → ws.head? ≠ some []
  noBar : k = .file → before = [] → ∀ w ∈ ws.head?, ¬ IsBarDrive w

section Values

variable {k : Kind} {before ps xs : Segments} {v w x : List Char} {vs ws : List (List Char)}

theorem decode_encode_value (k : Kind) (s : List Char) :
    decode (Bytes.ofChars (encode k.isUnsafeInSegment s)) = Bytes.ofChars s :=
  decode_encode (isUnsafeInSegment_percent k) s

/-- A drive letter stands for itself. -/
theorem decode_drive (k : Kind) (hs : Segment.isDrive v = true) :
    decode (Bytes.ofChars v) = Bytes.ofChars v := by
  have hencode := decode_encode_value k v
  rwa [encode_of_plain (plain_of_isDrive k hs)] at hencode

/-- A drive letter holds no braces, and nothing of it is passed over. -/
theorem chars_of_isDrive (hs : Segment.isDrive v = true) :
    Template.BraceFree v ∧ withoutSkipped v = v := by
  obtain ⟨c, d, hc, hd, rfl⟩ := isDrive_iff.1 hs
  have halphanum : c.isAlphanum = true := by simp [Char.isAlphanum, hc]
  have hletter := Naming.forall_of_ascii
    (fun c => Template.isBrace c = false ∧ isSkipped c = false) (by decide) halphanum
  have hmark : Template.isBrace d = false ∧ isSkipped d = false := by
    rcases hd with rfl | rfl
    · decide
    · decide
  constructor
  · intro b hb
    rcases List.mem_pair.1 hb with rfl | rfl
    · exact hletter.1
    · exact hmark.1
  · simp [withoutSkipped, hletter.2, hmark.2]

/-- A value becomes a segment that stands for it, unless it is a drive letter with a bar. -/
theorem decode_segmentOf
    (hbar : k = .file → before = [] → ¬ IsBarDrive (withoutSkipped v)) :
    decode (Bytes.ofChars (segmentOf k before v)) = Bytes.ofChars (withoutSkipped v) := by
  unfold segmentOf
  dsimp only
  split
  · rename_i hdrive
    obtain ⟨hk, hbefore, hs⟩ := hdrive
    obtain ⟨c, d, hc, hd, he⟩ := isDrive_iff.1 hs
    have hcolon : d = ':' := hd.resolve_right fun hd => hbar hk hbefore ⟨c, hc, hd ▸ he⟩
    rw [he, hcolon] at hs ⊢
    exact decode_drive k hs
  · exact decode_encode_value k _

/-- If the segment stands for a text that the value is, if it holds no braces, then it does so by
being this text. -/
theorem eq_of_decode_segmentOf (hfill : Template.BraceFree w → v = w)
    (h : decode (Bytes.ofChars (segmentOf k before v)) = Bytes.ofChars w) :
    withoutSkipped v = w ∧ (k = .file → before = [] → ¬ IsBarDrive w) := by
  unfold segmentOf at h
  dsimp only at h
  split at h
  · rename_i hdrive
    obtain ⟨-, -, hs⟩ := hdrive
    obtain ⟨c, d, hc, hd, he⟩ := isDrive_iff.1 hs
    have hcolon : Segment.isDrive [c, ':'] = true := isDrive_iff.2 ⟨c, ':', hc, Or.inl rfl, rfl⟩
    rw [he] at h
    obtain rfl : [c, ':'] = w := Bytes.ofChars_inj.1 ((decode_drive k hcolon).symm.trans h)
    obtain ⟨hbraces, hkept⟩ := chars_of_isDrive hcolon
    rw [hfill hbraces]
    refine ⟨hkept, ?_⟩
    rintro - - ⟨c', -, hbar⟩
    cases hbar
  · rename_i hdrive
    rw [decode_encode_value, Bytes.ofChars_inj] at h
    refine ⟨h, fun hk hbefore ⟨c, hc, hw⟩ => hdrive ⟨hk, hbefore, ?_⟩⟩
    rw [h, hw]
    exact isDrive_iff.2 ⟨c, '|', hc, Or.inr rfl, rfl⟩

theorem append_eq_lone_iff : before ++ [x] = [[]] ↔ before = [] ∧ x = [] := by
  cases before <;> simp

theorem decode_nil : decode (Bytes.ofChars []) = [] :=
  rfl

theorem ofChars_eq_nil_iff : Bytes.ofChars w = [] ↔ w = [] :=
  Bytes.ofChars_inj (t := [])

theorem segmentOf_of_empty (h : withoutSkipped v = []) : segmentOf k before v = [] := by
  unfold segmentOf
  rw [h]
  exact if_neg fun hdrive => Bool.false_ne_true hdrive.2.2

/-- Values that are no dots add segments that stand for them. -/
theorem exists_addsAll (hv : ∀ v ∈ vs, ¬ IsDots (withoutSkipped v))
    (hempty : before = [] → 2 ≤ vs.length → (vs.map withoutSkipped).head? ≠ some [])
    (hbar : k = .file → before = [] → ∀ w ∈ (vs.map withoutSkipped).head?, ¬ IsBarDrive w) :
    ∃ xs, AddsAll k before vs xs ∧
      decoded xs = (vs.map withoutSkipped).map Bytes.ofChars := by
  induction vs generalizing before with
  | nil => exact ⟨[], .nil, rfl⟩
  | cons v vs ih =>
      obtain ⟨hfirst, hrest⟩ := List.forall_mem_cons.1 hv
      have hbehind : before ++ [segmentOf k before v] ≠ [] := by simp
      obtain ⟨xs, hxs, hdecoded⟩ := ih hrest (fun h => absurd h hbehind) fun _ h => absurd h hbehind
      have hx : decode (Bytes.ofChars (segmentOf k before v)) = Bytes.ofChars (withoutSkipped v) :=
        decode_segmentOf fun hk hb => hbar hk hb _ rfl
      refine ⟨_ :: xs, .cons (Or.inr ⟨hfirst, rfl⟩) (fun hlone => ?_) hxs, ?_⟩
      · by_contra hvs
        obtain ⟨hb, hnil⟩ := append_eq_lone_iff.1 hlone
        rw [hnil, decode_nil, eq_comm, ofChars_eq_nil_iff] at hx
        refine hempty hb ?_ (by rw [List.map_cons, hx]; rfl)
        exact Nat.succ_le_succ (List.length_pos_of_ne_nil hvs)
      · exact congrArg₂ List.cons hx hdecoded

/-- What is added stands for given texts only if these are what the values are but for characters
that are passed over. -/
theorem faithful_of_addsAll (hadds : AddsAll k before vs xs)
    (hfill : List.Forall₂ (fun v w => Template.BraceFree w → v = w) vs ws)
    (h : decoded xs = ws.map Bytes.ofChars) : Faithful k before vs ws := by
  induction hadds generalizing ws with
  | nil =>
      obtain rfl := List.forall₂_nil_left_iff.1 hfill
      exact ⟨rfl, nofun, nofun, nofun⟩
  | @cons before v x vs xs hx hlone hxs ih =>
      cases hfill with
      | @cons _ w _ ws hfirst hrest =>
          obtain ⟨hdecode, hdecoded⟩ := List.cons_eq_cons.1 h
          have hbehind := ih hrest hdecoded
          have hstands : decode (Bytes.ofChars x) = Bytes.ofChars w := hdecode
          have hword : withoutSkipped v = w ∧ ¬ IsDots w ∧
              (k = .file → before = [] → ¬ IsBarDrive w) ∧ (w = [] → x = []) := by
            rcases hx with ⟨hdots, rfl⟩ | ⟨hdots, rfl⟩
            · rw [decode_nil, eq_comm, ofChars_eq_nil_iff] at hstands
              subst hstands
              rw [hfirst nofun] at hdots
              rcases hdots with he | he
              · cases he
              · cases he
            · obtain ⟨rfl, hbar⟩ := eq_of_decode_segmentOf hfirst hstands
              exact ⟨rfl, hdots, hbar, segmentOf_of_empty⟩
          obtain ⟨hkept, hdots, hbar, hnil⟩ := hword
          refine ⟨congrArg₂ List.cons hkept hbehind.kept,
            List.forall_mem_cons.2 ⟨hdots, hbehind.noDots⟩, fun hb hlength hw => ?_, ?_⟩
          · have hx := hnil (Option.some.inj hw)
            obtain rfl := hlone (append_eq_lone_iff.2 ⟨hb, hx⟩)
            rw [List.forall₂_nil_left_iff.1 hrest] at hlength
            exact absurd hlength (by simp)
          · rintro hk hb _ ⟨⟩
            exact hbar hk hb

/-- Values that are put behind a path as what they should stand for do stand for it. -/
theorem decoded_pushAll (h : settled k ps = ps) (hne : vs ≠ [])
    (hf : Faithful k (rooted ps) vs ws) :
    decoded (pushAll k ps vs) = decoded (rooted ps) ++ ws.map Bytes.ofChars := by
  obtain ⟨rfl, hdots, hempty, hbar⟩ := hf
  rw [List.length_map] at hempty
  have hv : ∀ v ∈ vs, ¬ IsDots (withoutSkipped v) := fun v hv => hdots _ (List.mem_map_of_mem hv)
  obtain ⟨xs, hxs, hdecoded⟩ := exists_addsAll hv hempty hbar
  rw [pushAll_of_addsAll h hne hv hxs, decoded, List.map_append]
  exact congrArg _ hdecoded

/-- If they stand for it, they were put as it. -/
theorem faithful_of_decoded (h : settled k ps = ps) (hne : vs ≠ [])
    (hfill : List.Forall₂ (fun v w => Template.BraceFree w → v = w) vs ws)
    (hdecoded : decoded (pushAll k ps vs) = decoded (rooted ps) ++ ws.map Bytes.ofChars) :
    Faithful k (rooted ps) vs ws := by
  have hlength := congrArg List.length hdecoded
  simp only [decoded, List.length_append, List.length_map, ← hfill.length_eq] at hlength
  rcases pushAll_cases h hne with hshort | ⟨xs, hxs, hadds⟩
  · omega
  · refine faithful_of_addsAll hadds hfill ?_
    rw [hxs, decoded, List.map_append] at hdecoded
    exact List.append_cancel_left hdecoded

end Values

/-! ## The path of a service -/

section Ends

variable {k : Kind} {ps : Segments}

/-- An empty segment at the end is left out, unless it is the only one. -/
theorem withoutEmptyEnd_eq (ps : Segments) :
    withoutEmptyEnd ps = if ps = [[]] then [[]] else dropEmptyEnd ps := by
  match ps with
  | [] => rfl
  | [p] =>
      cases p with
      | nil => rfl
      | cons c cs => simp [withoutEmptyEnd, dropEmptyEnd]
  | p :: q :: rest => simp [withoutEmptyEnd, dropEmptyEnd]

/-- What is put behind a path is put behind what is left of it without an empty segment at its end,
unless this is empty as well. -/
theorem rooted_withoutEmptyEnd (h : dropEmptyEnd ps ≠ [[]]) :
    rooted (withoutEmptyEnd ps) = dropEmptyEnd ps := by
  rw [withoutEmptyEnd_eq]
  split
  · rename_i he
    subst he
    rfl
  · exact rooted_of_ne h

theorem settled_withoutEmptyEnd (h : settled k ps = ps) :
    settled k (withoutEmptyEnd ps) = withoutEmptyEnd ps := by
  by_cases hk : k = .file
  · subst hk
    rcases h ▸ settled_file_begins ps with rfl | ⟨c, cs, rest, rfl⟩
    · rfl
    · cases rest with
      | nil => rfl
      | cons q rest =>
          simp only [withoutEmptyEnd, List.dropLast_cons_cons]
          split
          · exact settled_file_cons c cs _
          · exact settled_file_cons c cs _
  · exact settled_of_ne hk _

end Ends

end Segments

/-! ## URLs that are read -/

section Reading

variable {s : String} {u : Url}

theorem settled_ofText (k : Kind) (s : List Char) :
    Segments.settled k (Segments.ofText k s) = Segments.ofText k s :=
  Segments.settled_settled k _

theorem settled_filePlace {s : List Char} {p : Option Host × Segments} (h : filePlace? s = some p) :
    Segments.settled .file p.2 = p.2 := by
  unfold filePlace? at h
  dsimp only at h
  split at h
  · obtain rfl := Option.some.inj h
    exact settled_ofText .file _
  split at h
  · obtain rfl := Option.some.inj h
    exact settled_ofText .file _
  · obtain ⟨host, -, rfl⟩ := Option.map_eq_some_iff.1 h
    exact settled_ofText .file _

theorem settled_place {scheme : String} {s : List Char} {isEnd : Bool} {p : Front × Segments}
    (h : place? scheme s isEnd = some p) : Segments.settled (kindOf scheme) p.2 = p.2 := by
  by_cases hk : kindOf scheme = .file
  · unfold place? at h
    simp only [hk] at h ⊢
    split at h
    · split at h
      · obtain ⟨place, hplace, rfl⟩ := Option.map_eq_some_iff.1 h
        exact settled_filePlace hplace
      · obtain rfl := Option.some.inj h
        dsimp only
        exact settled_ofText .file _
    · obtain rfl := Option.some.inj h
      exact settled_ofText .file _
  · exact Segments.settled_of_ne hk _

/-- The path of a URL that is read has its usual form. -/
theorem settled_path (h : ofText? s = some u) : Segments.settled u.kind u.path = u.path := by
  unfold ofText? at h
  obtain ⟨⟨scheme, rest⟩, -, h⟩ := Option.bind_eq_some_iff.1 h
  obtain ⟨⟨front, path⟩, hplace, h⟩ := Option.bind_eq_some_iff.1 h
  obtain rfl := Option.some.inj h
  exact settled_place hplace

end Reading

end Url

end ApiContract
