import ApiContract.Disk.Path

/-!
# The names of paths

**Input:** paths, as they are written.

What stands before the last name of a path is empty or ends with a slash (`IsStem`).  What follows
adds its names to those of the stem, and the extension of the last name can be changed without
looking at the stem.

**Results:**

* `names_append`: the names of a stem and of what follows it;
* `join_eq`: a path that is continued becomes the stem of what continues it;
* `withExtension_append`, `names_withExtension`: another extension changes the last name only.
-/

namespace ApiContract

/-- Pieces are those between the marks. -/
theorem pieces_eq_splitOnP {α : Type} (isMark : α → Bool) (s : List α) :
    Text.pieces isMark s = s.splitOnP isMark := by
  induction s with
  | nil => rfl
  | cons a s ih =>
      rw [Text.pieces_cons, List.splitOnP_cons_eq_if_modifyHead, ih]
      split
      · rfl
      · cases hs : s.splitOnP isMark with
        | nil => exact absurd (ih.trans hs) (Text.pieces_ne_nil isMark s)
        | cons p ps => rfl

/-- A text has given pieces exactly if it is what they make with marks between them. -/
theorem pieces_eq_iff {α : Type} [DecidableEq α] {c : α} {s : List α} {ls : List (List α)} :
    Text.pieces (· = c) s = ls ↔ ls ≠ [] ∧ (∀ l ∈ ls, c ∉ l) ∧ [c].intercalate ls = s := by
  have hsplit : Text.pieces (· = c) s = s.splitOn c := pieces_eq_splitOnP _ s
  constructor
  · rintro rfl
    refine ⟨Text.pieces_ne_nil _ _, fun l hl hc => ?_, ?_⟩
    · simpa using Text.not_isMark_of_mem_pieces hl c hc
    · rw [hsplit]
      exact List.intercalate_splitOn c
  · rintro ⟨hne, hfree, rfl⟩
    rw [pieces_eq_splitOnP]
    exact List.splitOn_intercalate c hfree hne

namespace FilePath

/-- The path of a text. -/
def ofChars (s : List Char) : FilePath :=
  ⟨String.ofList s⟩

/-- What stands before the last name of a path. -/
def IsStem (s : List Char) : Prop :=
  s = [] ∨ ∃ before, s = before ++ ['/']

/-- A piece that names a file. -/
structure IsName (n : List Char) : Prop where
  noSlash : '/' ∉ n
  notSilent : isSilent n = false
  notParent : n ≠ ['.', '.']

section Stems

variable {stem t n : List Char}

theorem IsStem.append {s : List Char} (h : IsStem stem) (hs : IsStem s) : IsStem (stem ++ s) := by
  rcases hs with rfl | ⟨before, rfl⟩
  · rwa [List.append_nil]
  · exact Or.inr ⟨stem ++ before, (List.append_assoc _ _ _).symm⟩

theorem startLength_of_isName (h : IsName n) : startLength n = 0 := by
  obtain ⟨hslash, hsilent, -⟩ := h
  unfold startLength
  split
  · simp at hslash
  · cases hsilent
  · simp at hslash
  · rfl

theorem startLength_cons_cons (c d : Char) (s : List Char) :
    startLength (c :: d :: s) = if c = '/' ∨ c = '.' ∧ d = '/' then 1 else 0 := by
  unfold startLength
  split <;> simp_all

/-- What follows a slash says nothing about where a path starts. -/
theorem startLength_slash (s t : List Char) :
    startLength (s ++ '/' :: t) = startLength (s ++ ['/']) := by
  rcases s with _ | ⟨c, _ | ⟨d, rest⟩⟩
  · rfl
  · exact (startLength_cons_cons c '/' t).trans (startLength_cons_cons c '/' []).symm
  · exact (startLength_cons_cons c d _).trans (startLength_cons_cons c d _).symm

/-- Where a path starts is said by its stem, if it has one. -/
theorem startLength_append (h : IsStem stem) (ht : startLength t = 0) :
    startLength (stem ++ t) = startLength stem := by
  rcases h with rfl | ⟨before, rfl⟩
  · exact ht
  · rw [List.append_assoc, List.singleton_append, startLength_slash]

theorem startLength_le (s : List Char) : startLength s ≤ s.length := by
  unfold startLength
  split <;> simp

/-- What a path says about its start can be left out of its stem. -/
theorem IsStem.drop_startLength (h : IsStem stem) : IsStem (stem.drop (startLength stem)) := by
  rcases h with rfl | ⟨before, rfl⟩
  · exact Or.inl rfl
  · rcases before with _ | ⟨c, rest⟩
    · exact Or.inl rfl
    · have hlength : startLength (c :: (rest ++ ['/'])) = 0 ∨
          startLength (c :: (rest ++ ['/'])) = 1 := by
        unfold startLength
        split <;> simp
      refine Or.inr ?_
      rcases hlength with h | h
      · exact ⟨c :: rest, by rw [List.cons_append, h, List.drop_zero]⟩
      · exact ⟨rest, by rw [List.cons_append, h, List.drop_one, List.tail_cons]⟩

theorem joined_append_singleton {qs : List (List Char)} (hqs : qs ≠ []) (t : List Char) :
    joined (qs ++ [t]) = joined qs ++ '/' :: t := by
  induction qs with
  | nil => exact absurd rfl hqs
  | cons q qs ih =>
      cases qs with
      | nil => simp [joined]
      | cons q' qs =>
          have hrest := ih (List.cons_ne_nil _ _)
          simp only [joined, List.cons_append, List.intercalate_cons_cons] at hrest ⊢
          rw [hrest]
          simp

/-- The pieces of a stem, without the empty one behind its last slash. -/
theorem IsStem.exists_pieces {s : List Char} (h : IsStem s) : ∃ qs, ∀ t,
    Text.pieces (· = '/') (s ++ t) = qs ++ Text.pieces (· = '/') t ∧
      joined (qs ++ [t]) = s ++ t := by
  rcases h with rfl | ⟨before, rfl⟩
  · refine ⟨[], fun t => ⟨rfl, ?_⟩⟩
    simp [joined]
  · refine ⟨Text.pieces (· = '/') before, fun t => ⟨?_, ?_⟩⟩
    · rw [List.append_assoc, List.singleton_append]
      simp only [pieces_eq_splitOnP]
      exact List.splitOnP_append_cons _ _ (by decide)
    · rw [joined_append_singleton (Text.pieces_ne_nil _ _), pieces_eq_splitOnP, joined]
      have hjoined : List.intercalate ['/'] (before.splitOnP (· = '/')) = before :=
        List.intercalate_splitOn '/'
      rw [hjoined]
      simp

/-- Behind a stem stand the pieces of what follows it. -/
theorem exists_body (h : IsStem stem) : ∃ front qs,
    (∀ t, startLength t = 0 → (ofChars (stem ++ t)).start = front ∧
      (ofChars (stem ++ t)).body = qs ++ Text.pieces (· = '/') t) ∧
    ∀ t, front ++ joined (qs ++ [t]) = stem ++ t := by
  obtain ⟨qs, hqs⟩ := h.drop_startLength.exists_pieces
  refine ⟨stem.take (startLength stem), qs, fun t ht => ?_, fun t => ?_⟩
  · have htext : (ofChars (stem ++ t)).text.toList = stem ++ t := String.toList_ofList
    rw [start, body, htext, startLength_append h ht,
      List.take_append_of_le_length (startLength_le _),
      List.drop_append_of_le_length (startLength_le _)]
    exact ⟨rfl, (hqs t).1⟩
  · rw [(hqs t).2, ← List.append_assoc, List.take_append_drop]

/-- The names of a stem and of what follows it. -/
theorem names_append (h : IsStem stem) (ht : startLength t = 0) :
    (ofChars (stem ++ t)).names = (ofChars stem).names ++ (ofChars t).names := by
  obtain ⟨front, qs, hbody, -⟩ := exists_body h
  have hstem : (ofChars stem).names = (qs.filter (!isSilent ·)).map String.ofList := by
    have hnil := (hbody [] rfl).2
    rw [List.append_nil] at hnil
    rw [names, hnil]
    simp [Text.pieces_nil, isSilent]
  have htail : (ofChars t).body = Text.pieces (· = '/') t := by
    rw [body, ofChars, String.toList_ofList, ht, List.drop_zero]
  rw [hstem, names, names, (hbody t ht).2, htail, List.filter_append, List.map_append]

theorem body_of_isName (h : IsName n) : Text.pieces (· = '/') n = [n] := by
  refine Text.pieces_eq_singleton fun c hc => decide_eq_false fun he => ?_
  exact h.noSlash (he ▸ hc)

theorem names_of_isName (h : IsName n) : (ofChars n).names = [String.ofList n] := by
  rw [names, body, ofChars, String.toList_ofList, startLength_of_isName h, List.drop_zero,
    body_of_isName h]
  simp [h.notSilent]

/-- Another extension changes the last name only. -/
theorem withExtension_append (h : IsStem stem) (hn : IsName n) (extension : String) :
    (ofChars (stem ++ n)).withExtension extension =
      ofChars (stem ++ ((cutName n).1 ++ '.' :: extension.toList)) := by
  obtain ⟨front, qs, hbody, hjoined⟩ := exists_body h
  obtain ⟨hstart, hpieces⟩ := hbody n (startLength_of_isName hn)
  have hlast : (ofChars (stem ++ n)).last? = some (n, qs.reverse) := by
    rw [last?, hpieces, body_of_isName hn]
    simp [hn.notSilent]
  unfold withExtension
  rw [hlast]
  dsimp only
  rw [if_neg hn.notParent, hstart, List.reverse_reverse, hjoined]
  rfl

end Stems

/-! ## Extensions -/

section Extensions

variable {p : FilePath} {name stem : List Char} {before : List (List Char)}

theorem joined_cons_append (q : List Char) (qs rest : List (List Char)) (h : rest ≠ []) :
    joined (q :: qs ++ rest) = q ++ '/' :: joined (qs ++ rest) := by
  have hne : qs ++ rest ≠ [] := by simp [h]
  obtain ⟨r, rs, hr⟩ := List.exists_cons_of_ne_nil hne
  rw [List.cons_append, hr]
  simp [joined, List.intercalate_cons_cons]

theorem startLength_cases (cs : List Char) : startLength cs = 0 ∨ (∃ s, cs = '/' :: s) ∨
    cs = ['.'] ∨ ∃ s, cs = '.' :: '/' :: s := by
  unfold startLength
  split <;> simp

/-- Another last name leaves the start of a path. -/
theorem startLength_renamed {cs : List Char} {qs rest : List (List Char)}
    (hbody : Text.pieces (· = '/') (cs.drop (startLength cs)) = qs ++ name :: rest)
    (hname : IsName name) (hstem : IsName stem) :
    startLength (cs.take (startLength cs) ++ joined (qs ++ [stem])) = startLength cs := by
  obtain ⟨-, -, hjoined⟩ := pieces_eq_iff.1 hbody
  change joined (qs ++ name :: rest) = _ at hjoined
  cases qs with
  | cons q qs =>
      have htext : cs = cs.take (startLength cs) ++ q ++ '/' :: joined (qs ++ name :: rest) := by
        rw [List.append_assoc, ← joined_cons_append q qs _ (by simp), hjoined,
          List.take_append_drop]
      have hstart : startLength cs = startLength (cs.take (startLength cs) ++ q ++ ['/']) :=
        (congrArg startLength htext).trans (startLength_slash _ _)
      rw [joined_cons_append q qs _ (by simp), ← List.append_assoc, startLength_slash, ← hstart]
  | nil =>
      have hnot : name ≠ [] := by
        rintro rfl
        cases hname.notSilent
      have hfirst : joined ([] ++ [stem]) = stem := by simp [joined]
      rw [hfirst]
      rcases startLength_cases cs with hzero | ⟨s, rfl⟩ | rfl | ⟨s, rfl⟩
      · rw [hzero, List.take_zero, List.nil_append, startLength_of_isName hstem]
      · rfl
      -- Behind a dot at the start stands an empty piece, which is no name.
      · exact absurd (List.cons.inj hbody).1.symm hnot
      · rw [show startLength ('.' :: '/' :: s) = 1 from rfl, List.drop_one, List.tail_cons,
          Text.pieces_cons, if_pos (by decide)] at hbody
        exact absurd (List.cons.inj hbody).1.symm hnot

/-- A path that goes on after its start and has a last name. -/
theorem last?_eq_some (h : p.last? = some (name, before)) :
    ∃ silent, p.body = before.reverse ++ name :: silent ∧ (∀ q ∈ silent, isSilent q) ∧
      isSilent name = false := by
  unfold last? at h
  split at h
  · rename_i name' before' hdrop
    obtain ⟨rfl, rfl⟩ := Prod.mk.inj (Option.some.inj h)
    have hbody : p.body.reverse.takeWhile isSilent ++ name' :: before' = p.body.reverse := by
      rw [← hdrop, List.takeWhile_append_dropWhile]
    refine ⟨(p.body.reverse.takeWhile isSilent).reverse, ?_, fun q hq => ?_, ?_⟩
    · have hreverse := congrArg List.reverse hbody
      rw [List.reverse_reverse, List.reverse_append, List.reverse_cons,
        List.append_assoc] at hreverse
      exact hreverse.symm
    · exact List.all_eq_true.1 List.all_takeWhile q (List.mem_reverse.1 hq)
    · have hhead := List.head_dropWhile_not isSilent (l := p.body.reverse)
      simpa [hdrop] using hhead
  · cases h

theorem isName_of_last? (h : p.last? = some (name, before)) (hname : name ≠ ['.', '.']) :
    IsName name := by
  obtain ⟨silent, hbody, -, hsilent⟩ := last?_eq_some h
  refine ⟨fun hslash => ?_, hsilent, hname⟩
  have hmem : name ∈ Text.pieces (· = '/') (p.text.toList.drop (startLength p.text.toList)) := by
    rw [← body, hbody]
    simp
  simpa using Text.not_isMark_of_mem_pieces hmem '/' hslash

/-- A name with another extension is one. -/
theorem isName_extended (h : IsName name) {extension : List Char} (he : '/' ∉ extension)
    (hne : extension ≠ []) : IsName ((cutName name).1 ++ '.' :: extension) := by
  have hname : name ≠ [] := by
    rintro rfl
    cases h.notSilent
  have hcut : (cutName name).1 ≠ [] ∧ (cutName name).1 ⊆ name := by
    unfold cutName
    dsimp only
    split
    · exact ⟨hname, List.Subset.refl _⟩
    · rename_i hstem
      refine ⟨fun hnil => hstem (List.isEmpty_iff.2 hnil), fun c hc => ?_⟩
      have hdrop := (List.drop_sublist _ _).subset (List.mem_reverse.1 hc)
      exact List.mem_reverse.1 ((List.dropWhile_sublist _).subset hdrop)
  obtain ⟨c, stem, hstem⟩ := List.exists_cons_of_ne_nil hcut.1
  obtain ⟨e, rest, rfl⟩ := List.exists_cons_of_ne_nil hne
  refine ⟨fun hslash => ?_, ?_, ?_⟩
  · rcases List.mem_append.1 hslash with hslash | hslash
    · exact h.noSlash (hcut.2 hslash)
    · exact he (by simpa using hslash)
  · rw [hstem]
    simp [isSilent]
  · rw [hstem]
    cases stem <;> simp

theorem head?_eq_slash_iff (cs : List Char) :
    cs.head? = some '/' ↔ cs.take (startLength cs) = ['/'] := by
  rcases startLength_cases cs with hzero | ⟨s, rfl⟩ | rfl | ⟨s, rfl⟩
  · rw [hzero]
    refine ⟨fun hhead => ?_, nofun⟩
    obtain ⟨s, rfl⟩ := List.head?_eq_some_iff.1 hhead
    cases hzero
  · exact ⟨fun _ => rfl, fun _ => rfl⟩
  · decide
  · exact ⟨nofun, nofun⟩

theorem withExtension_eq (h : p.last? = some (name, before)) (hname : name ≠ ['.', '.'])
    (extension : String) : p.withExtension extension = ofChars (p.start ++
      joined (before.reverse ++ [(cutName name).1 ++ '.' :: extension.toList])) := by
  unfold withExtension
  rw [h]
  exact if_neg hname

/-- Another last name is the only piece that changes. -/
theorem body_renamed {silent : List (List Char)} (hbody : p.body = before.reverse ++ name :: silent)
    (hname : IsName name) (hstem : IsName stem) :
    (ofChars (p.start ++ joined (before.reverse ++ [stem]))).start = p.start ∧
      (ofChars (p.start ++ joined (before.reverse ++ [stem]))).body = before.reverse ++ [stem] := by
  have hlength := startLength_renamed hbody hname hstem
  have htake : (p.text.toList.take (startLength p.text.toList)).length =
      startLength p.text.toList :=
    List.length_take_of_le (startLength_le _)
  have hfree : ∀ q ∈ before.reverse ++ [stem], '/' ∉ q := by
    intro q hq
    rcases List.mem_append.1 hq with hq | hq
    · exact (pieces_eq_iff.1 hbody).2.1 q (List.mem_append_left _ hq)
    · exact List.mem_singleton.1 hq ▸ hstem.noSlash
  have hpieces : Text.pieces (· = '/') (joined (before.reverse ++ [stem])) = before.reverse ++
      [stem] :=
    pieces_eq_iff.2 ⟨by simp, hfree, rfl⟩
  rw [start, body, ofChars, String.toList_ofList, start, hlength]
  exact ⟨List.take_left' htake, by rw [List.drop_left' htake, hpieces]⟩

/-- Another extension changes the last of the names only, and not where a path starts. -/
theorem names_withExtension (h : p.last? = some (name, before)) (hname : name ≠ ['.', '.'])
    (extension : String) (he : '/' ∉ extension.toList) (hne : extension.toList ≠ []) :
    ∃ front, p.names = front ++ [String.ofList name] ∧
      (p.withExtension extension).names =
        front ++ [String.ofList ((cutName name).1 ++ '.' :: extension.toList)] ∧
      (p.withExtension extension).isAbsolute = p.isAbsolute := by
  obtain ⟨silent, hbody, hsilent, hspoken⟩ := last?_eq_some h
  have hnamed := isName_of_last? h hname
  have hextended := isName_extended hnamed he hne
  obtain ⟨hstart, hpieces⟩ := body_renamed hbody hnamed hextended
  rw [withExtension_eq h hname]
  refine ⟨(before.reverse.filter (!isSilent ·)).map String.ofList, ?_, ?_, ?_⟩
  · have hnone : silent.filter (!isSilent ·) = [] := by
      refine List.filter_eq_nil_iff.2 fun q hq => ?_
      simp [hsilent q hq]
    rw [names, hbody, List.filter_append, List.filter_cons_of_pos (by simp [hspoken]), hnone,
      List.map_append]
    rfl
  · rw [names, hpieces, List.filter_append, List.map_append]
    simp [hextended.notSilent]
  · rw [isAbsolute, isAbsolute, decide_eq_decide, head?_eq_slash_iff, head?_eq_slash_iff]
    change (ofChars _).start = _ ↔ p.start = _
    rw [hstart]

end Extensions
/-! ## Joining -/

/-- A path as the stem of what continues it. -/
def asStem (p : FilePath) : List Char :=
  if p.text.isEmpty ∨ p.text.toList.getLast? = some '/' then p.text.toList
  else p.text.toList ++ ['/']

section Joining

variable {p q : FilePath}

theorem isStem_asStem (p : FilePath) : IsStem p.asStem := by
  unfold asStem
  split
  · rename_i h
    rcases h with h | h
    · exact Or.inl (by rw [String.isEmpty_iff.1 h, String.toList_empty])
    · obtain ⟨before, hbefore⟩ := List.getLast?_eq_some_iff.1 h
      exact Or.inr ⟨before, hbefore⟩
  · exact Or.inr ⟨_, rfl⟩

/-- A path that is continued becomes the stem of what continues it. -/
theorem join_eq (hq : q.isAbsolute = false) : p.join q = ofChars (p.asStem ++ q.text.toList) := by
  have htext : ∀ r : FilePath, r = ofChars r.text.toList := fun r => by
    rw [ofChars, String.ofList_toList]
  rw [join, if_neg (by simp [hq])]
  unfold asStem
  split
  · rw [htext ⟨_⟩, String.toList_append]
  · rw [htext ⟨_⟩, String.toList_append, String.toList_append]
    rfl

theorem isAbsolute_ofChars_append {stem t : List Char} (h : stem ≠ []) :
    (ofChars (stem ++ t)).isAbsolute = (ofChars stem).isAbsolute := by
  cases stem with
  | nil => exact absurd rfl h
  | cons c stem => simp [isAbsolute, ofChars]

end Joining

end FilePath
end ApiContract
