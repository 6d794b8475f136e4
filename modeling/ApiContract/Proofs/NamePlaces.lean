import ApiContract.Proofs.Templates
import ApiContract.Resolve.Document
import Mathlib.Data.List.Sort

/-!
# Places of names in templates

**Input:** any template.

A name stands at a place if an opening brace is right in front of it and a closing one right behind
it, and no brace in it.  The place is the byte offset at which the name begins.

`scan?` keeps one offset only: 0 where no brace is open, or where a name began.  Behind an opening
brace no offset is 0, so this is enough to know both (`Remembers`), and what it slices out is always
a name between two characters of the template.

**Results:**

* `slice?_eq_some_iff`: what a slice is, and when there is none;
* `scanFrom?_eq`: a pass over any rest of a template slices out what the rest names;
* `lists_iff`: the parameters are the names at all places, in the order of the places;
* `params_exact`: both for a whole template;
* `undeclared?_eq_some_iff`: the name for which an operation is refused.
-/

namespace ApiContract
namespace Template

/-! ## Slices -/

/-- A slice is what stands between two places between characters, and there is no other. -/
theorem slice?_eq_some_iff {s t : String} {start stop : Nat} : slice? s start stop = some t ↔
    ∃ before after, s = before ++ t ++ after ∧ start = before.utf8ByteSize ∧
      stop = (before ++ t).utf8ByteSize := by
  unfold slice?
  constructor
  · intro h
    split at h
    · obtain ⟨before, after, hstart, hstop⟩ :=
        String.copy_slice_eq_iff_splits.1 ⟨_, Option.some.inj h⟩
      exact ⟨before, after, hstop.eq_append,
        congrArg String.Pos.Raw.byteIdx hstart.offset_eq_rawEndPos,
        congrArg String.Pos.Raw.byteIdx hstop.offset_eq_rawEndPos⟩
    · cases h
  · rintro ⟨before, after, rfl, rfl, rfl⟩
    have hstart : String.Pos.Raw.IsValid (before ++ t ++ after) ⟨before.utf8ByteSize⟩ :=
      String.Pos.Raw.isValid_iff_exists_append.2 ⟨before, t ++ after, String.append_assoc, rfl⟩
    have hstop : String.Pos.Raw.IsValid (before ++ t ++ after) ⟨(before ++ t).utf8ByteSize⟩ :=
      String.Pos.Raw.isValid_iff_exists_append.2 ⟨before ++ t, after, rfl, rfl⟩
    have hle : before.utf8ByteSize ≤ (before ++ t).utf8ByteSize := by
      rw [String.utf8ByteSize_append]
      exact Nat.le_add_right _ _
    have hfirst : (String.pos _ _ hstart).Splits before (t ++ after) :=
      ⟨String.append_assoc, rfl⟩
    have hlast : (String.pos _ _ hstop).Splits (before ++ t) after := ⟨rfl, rfl⟩
    obtain ⟨h, hcopy⟩ := String.copy_slice_eq_iff_splits.2 ⟨before, after, hfirst, hlast⟩
    rw [dif_pos ⟨hstart, hstop, hle⟩]
    exact congrArg some hcopy

/-! ## One pass -/

theorem utf8ByteSize_brace (before : String) :
    (before ++ "\x7b").utf8ByteSize = before.utf8ByteSize + 1 := by
  rw [String.utf8ByteSize_append]
  rfl

/-- What the offset of the pass tells about the text in front of it: that no brace is open, or where
the name began that has been read since one opened. -/
def Remembers (front : String) (start : Nat) : Option (List Char) → Prop
  | none => start = 0
  | some name => ∃ before, front = before ++ "\x7b" ++ String.ofList name.reverse ∧
      start = (before ++ "\x7b").utf8ByteSize

section Pass

variable {front : String} {start : Nat} {open? : Option (List Char)} {name : List Char}

theorem Remembers.opened (front : String) :
    Remembers (front.push '\x7b') (front.utf8ByteSize + 1) (some []) := by
  refine ⟨front, ?_, (utf8ByteSize_brace front).symm⟩
  rw [String.push_eq_append]
  exact String.append_empty.symm

theorem Remembers.push (h : Remembers front start open?) (c : Char) :
    Remembers (front.push c) start (open?.map (c :: ·)) := by
  cases open? with
  | none => exact h
  | some name =>
      obtain ⟨before, rfl, hstart⟩ := h
      refine ⟨before, ?_, hstart⟩
      rw [List.reverse_cons, String.ofList_append, ← String.append_assoc, String.push_eq_append,
        String.singleton_eq_ofList]

/-- Behind a brace no offset is 0. -/
theorem Remembers.pos (h : Remembers front start (some name)) : 0 < start := by
  obtain ⟨before, -, rfl⟩ := h
  rw [utf8ByteSize_brace]
  exact Nat.succ_pos _

/-- A name can be sliced out of the template wherever its closing brace is. -/
theorem Remembers.slice? (h : Remembers front start (some name)) (rest : String) :
    slice? (front ++ rest) start front.utf8ByteSize = some (String.ofList name.reverse) := by
  obtain ⟨before, rfl, rfl⟩ := h
  exact slice?_eq_some_iff.2 ⟨_, rest, rfl, rfl, rfl⟩

/-- The pass goes through, and finds the names that the rest closes. -/
theorem scanFrom?_eq (h : Remembers front start open?) (s : List Char) :
    scanFrom? (front ++ String.ofList s) start front.utf8ByteSize s =
      some ((paramsFrom open? s).map String.ofList) := by
  -- What has been read moves from `s` to `front`, so that the template stays the same.
  induction s generalizing front start open? with
  | nil => rfl
  | cons c s ih =>
      have hfront : front ++ String.ofList (c :: s) = front.push c ++ String.ofList s := by
        rw [String.ofList_cons, ← String.append_assoc, String.push_eq_append]
      have hhere : front.utf8ByteSize + c.utf8Size = (front.push c).utf8ByteSize :=
        String.utf8ByteSize_push.symm
      unfold scanFrom? paramsFrom
      rw [hhere]
      by_cases hopens : c = '\x7b'
      · subst hopens
        rw [if_pos rfl, if_pos rfl, hfront]
        exact ih (.opened front)
      rw [if_neg hopens, if_neg hopens]
      by_cases hcloses : c = '\x7d'
      · have houtside : Remembers (front.push c) 0 none := rfl
        rw [if_pos hcloses]
        cases open? with
        | none =>
            obtain rfl : start = 0 := h
            rw [if_neg fun hc => Nat.lt_irrefl 0 hc.2, hfront]
            exact ih houtside
        | some name =>
            rw [if_pos ⟨hcloses, h.pos⟩, h.slice?, hfront, ih houtside]
            cases name with
            | nil => rfl
            | cons d ds =>
                have hne : (String.ofList (d :: ds).reverse).isEmpty = false := by simp
                exact congrArg some (if_neg (Bool.eq_false_iff.1 hne))
      · rw [if_neg fun hc => hcloses hc.1, if_neg hcloses, hfront]
        exact ih (h.push c)

theorem scan?_eq (template : String) : scan? template = some (params template) := by
  have hstart : Remembers "" 0 none := rfl
  have h := scanFrom?_eq hstart template.toList
  rwa [String.ofList_toList, String.empty_append] at h

end Pass

/-! ## Places -/

/-- A name stands between braces in a template, and begins at a byte offset. -/
structure StandsAt (template : String) (offset : Nat) (name : String) : Prop where
  nonempty : name ≠ ""
  braceFree : BraceFree name.toList
  between : ∃ before after, template = before ++ "\x7b" ++ name ++ "\x7d" ++ after ∧
    offset = (before ++ "\x7b").utf8ByteSize

/-- Names are those that stand in a template: one for each place, in the order of the places. -/
def Lists (template : String) (names : List String) : Prop :=
  ∃ places : List (Nat × String), places.map Prod.snd = names ∧
    places.Pairwise (·.1 < ·.1) ∧
    ∀ offset name, (offset, name) ∈ places ↔ StandsAt template offset name

/-- How many bytes characters take. -/
def byteSize (s : List Char) : Nat :=
  (String.ofList s).utf8ByteSize

/-- The names among parts and their places, where the first part begins at the offset `here`. -/
def placesFrom (here : Nat) : List Part → List (Nat × String)
  | [] => []
  | p :: ps => (p.param?.map (here + 1, ·)).toList ++ placesFrom (here + byteSize p.text) ps

section Places

variable {here offset : Nat} {template name : String} {names : List String} {p : Part}
  {ps : List Part} {q : Nat × String}

theorem byteSize_append (s t : List Char) : byteSize (s ++ t) = byteSize s + byteSize t := by
  rw [byteSize, String.ofList_append, String.utf8ByteSize_append]
  rfl

theorem byteSize_text_pos (p : Part) : 0 < byteSize p.text := by
  rw [Nat.pos_iff_ne_zero, byteSize, Ne, String.utf8ByteSize_eq_zero_iff]
  cases p <;> simp [Part.text, mark]

theorem map_snd_placesFrom (here : Nat) (ps : List Part) :
    (placesFrom here ps).map Prod.snd = ps.filterMap Part.param? := by
  induction ps generalizing here with
  | nil => rfl
  | cons p ps ih =>
      rw [placesFrom, List.map_append, ih, List.filterMap_cons]
      cases p.param? with
      | none => rfl
      | some n => rfl

/-- The place of a name is behind the text of all parts in front of it, and behind its brace. -/
theorem mem_placesFrom_iff : (offset, name) ∈ placesFrom here ps ↔
    name ≠ "" ∧ ∃ front back, ps = front ++ .name name :: back ∧
      offset = here + byteSize (front.flatMap Part.text) + 1 := by
  induction ps generalizing here with
  | nil => simp [placesFrom]
  | cons p ps ih =>
      have hbehind : ∀ front : List Part, here + byteSize ((p :: front).flatMap Part.text) + 1 =
          here + byteSize p.text + byteSize (front.flatMap Part.text) + 1 := by
        intro front
        rw [List.flatMap_cons, byteSize_append, ← Nat.add_assoc here]
      rw [placesFrom, List.mem_append, ih, Option.mem_toList]
      constructor
      · rintro (h | ⟨hne, front, back, rfl, rfl⟩)
        · obtain ⟨n, hn, he⟩ := Option.map_eq_some_iff.1 h
          obtain ⟨rfl, hne⟩ := param?_eq_some_iff.1 hn
          obtain ⟨rfl, rfl⟩ := Prod.mk.inj he
          exact ⟨hne, [], ps, rfl, rfl⟩
        · exact ⟨hne, p :: front, back, rfl, (hbehind front).symm⟩
      · rintro ⟨hne, front, back, hps, rfl⟩
        cases front with
        | nil =>
            obtain ⟨rfl, rfl⟩ := List.cons.inj hps
            exact .inl (Option.map_eq_some_iff.2 ⟨name, param?_eq_some_iff.2 ⟨rfl, hne⟩, rfl⟩)
        | cons r front =>
            obtain ⟨rfl, rfl⟩ := List.cons.inj hps
            exact .inr ⟨hne, front, back, rfl, hbehind front⟩

theorem lt_of_mem_placesFrom (h : q ∈ placesFrom here ps) : here < q.1 := by
  obtain ⟨offset, name⟩ := q
  obtain ⟨-, front, back, -, rfl⟩ := mem_placesFrom_iff.1 h
  exact Nat.lt_succ_of_le (Nat.le_add_right _ _)

theorem pairwise_placesFrom (here : Nat) (ps : List Part) :
    (placesFrom here ps).Pairwise (·.1 < ·.1) := by
  induction ps generalizing here with
  | nil => exact .nil
  | cons p ps ih =>
      rw [placesFrom, List.pairwise_append]
      refine ⟨?_, ih _, fun q hq r hr => ?_⟩
      · cases p.param? with
        | none => exact .nil
        | some n => exact List.pairwise_singleton _ _
      · obtain ⟨n, -, rfl⟩ := Option.map_eq_some_iff.1 (Option.mem_toList.1 hq)
        have hlater : here + byteSize p.text < r.1 := lt_of_mem_placesFrom hr
        exact Nat.lt_of_le_of_lt (Nat.add_le_add_left (byteSize_text_pos p) here) hlater

theorem toList_braced (before name after : String) :
    (before ++ "\x7b" ++ name ++ "\x7d" ++ after).toList =
      before.toList ++ (mark name ++ after.toList) := by
  simp [mark]

/-- A name stands where it is a part. -/
theorem standsAt_iff :
    StandsAt template offset name ↔ (offset, name) ∈ placesFrom 0 (parts template.toList) := by
  rw [mem_placesFrom_iff]
  constructor
  · rintro ⟨hne, hfree, before, after, rfl, rfl⟩
    refine ⟨hne, parts before.toList, parts after.toList, ?_, ?_⟩
    · rw [toList_braced]
      exact partsFrom_append_mark none hfree before.toList after.toList
    · rw [text_parts, byteSize, String.ofList_toList, utf8ByteSize_brace, Nat.zero_add]
  · rintro ⟨hne, front, back, hparts, rfl⟩
    have hmem : .name name ∈ parts template.toList :=
      hparts ▸ List.mem_append_right _ List.mem_cons_self
    refine ⟨hne, braceFree_of_mem_parts hmem, String.ofList (front.flatMap Part.text),
      String.ofList (back.flatMap Part.text), ?_, ?_⟩
    · have htext := text_parts template.toList
      rw [hparts, List.flatMap_append, List.flatMap_cons] at htext
      rw [← String.toList_inj, ← htext, toList_braced, String.toList_ofList, String.toList_ofList]
      rfl
    · rw [utf8ByteSize_brace, Nat.zero_add]
      rfl

theorem map_snd_places (template : String) :
    (placesFrom 0 (parts template.toList)).map Prod.snd = params template := by
  rw [map_snd_placesFrom, params_eq]

/-- The parameters of a template list the names that stand in it, and nothing else does. -/
theorem lists_iff : Lists template names ↔ names = params template := by
  constructor
  · rintro ⟨places, rfl, hordered, hmem⟩
    -- Two lists of the same places, each in order, are one.
    have : Std.Irrefl fun q r : Nat × String => q.1 < r.1 := ⟨fun q => Nat.lt_irrefl q.1⟩
    have : Std.Antisymm fun q r : Nat × String => q.1 < r.1 :=
      ⟨fun q r h h' => absurd h' (Nat.lt_asymm h)⟩
    have hplaces : places = placesFrom 0 (parts template.toList) :=
      hordered.eq_of_mem_iff (pairwise_placesFrom _ _) fun q => (hmem q.1 q.2).trans standsAt_iff
    rw [hplaces, map_snd_places]
  · rintro rfl
    exact ⟨_, map_snd_places template, pairwise_placesFrom _ _, fun _ _ => standsAt_iff.symm⟩

end Places

/-- Parameters are read in one pass, no slice of which begins or ends within a character.  They are
the names between braces, one for each place at which one stands, in the order of these places. -/
theorem params_exact (template : String) :
    scan? template = some (params template) ∧
      ∀ names, Lists template names ↔ names = params template :=
  ⟨scan?_eq template, fun _ => lists_iff⟩

example : scan? "/\x7bb\x7bé\x7d\x7d/\x7b\x7d/\x7bé\x7d" = some ["é", "é"] := by
  cbv

end Template

namespace Resolve

section Undeclared

variable {path name : String} {ps : List Param}

/-- A parameter in the path is declared under a name. -/
def DeclaresInPath (ps : List Param) (name : String) : Prop :=
  ∃ p ∈ ps, p.location = .path ∧ p.name = name

theorem declaresInPath_iff : DeclaresInPath ps name ↔
    (ps.any fun p => p.location == .path && p.name == name) = true := by
  simp [DeclaresInPath]

theorem undeclared?_eq (path : String) (ps : List Param) : undeclared? path ps =
    ((Template.placesFrom 0 (Template.parts path.toList)).find? fun q =>
      !ps.any fun p => p.location == .path && p.name == q.2).map Prod.snd := by
  rw [undeclared?, ← Template.map_snd_places, List.find?_map]
  rfl

/-- An operation is refused for the first name in its path, by the places of the names, that is not
declared. -/
theorem undeclared?_eq_some_iff : undeclared? path ps = some name ↔
    ¬ DeclaresInPath ps name ∧ ∃ offset, Template.StandsAt path offset name ∧
      ∀ offset' < offset, ∀ name', Template.StandsAt path offset' name' →
        DeclaresInPath ps name' := by
  have hordered := Template.pairwise_placesFrom 0 (Template.parts path.toList)
  rw [undeclared?_eq, Option.map_eq_some_iff]
  simp only [List.find?_eq_some_iff_append, Bool.not_not, ← declaresInPath_iff,
    Bool.not_eq_true', Bool.eq_false_iff, ne_eq, Template.standsAt_iff]
  constructor
  · rintro ⟨⟨offset, name⟩, ⟨hname, before, after, hplaces, hbefore⟩, rfl⟩
    rw [hplaces] at hordered ⊢
    refine ⟨hname, offset, List.mem_append_right _ List.mem_cons_self, ?_⟩
    intro offset' hlt name' hmem
    have hafter := (List.pairwise_cons.1 (List.pairwise_append.1 hordered).2.1).1
    rcases List.mem_append.1 hmem with hmem | hmem
    · exact hbefore _ hmem
    rcases List.mem_cons.1 hmem with he | hmem
    · obtain ⟨rfl, -⟩ := Prod.mk.inj he
      exact absurd hlt (Nat.lt_irrefl _)
    · exact absurd hlt (Nat.lt_asymm (hafter _ hmem))
  · rintro ⟨hname, offset, hmem, hfirst⟩
    obtain ⟨before, after, hplaces⟩ := List.append_of_mem hmem
    rw [hplaces] at hordered hfirst ⊢
    refine ⟨(offset, name), ⟨hname, before, after, rfl, fun q hq => ?_⟩, rfl⟩
    have hlt := (List.pairwise_append.1 hordered).2.2 q hq _ List.mem_cons_self
    exact hfirst q.1 hlt q.2 (List.mem_append_left _ hq)

end Undeclared

end Resolve
end ApiContract
