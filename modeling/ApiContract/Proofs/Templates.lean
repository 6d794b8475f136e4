import ApiContract.Path.Template
import ApiContract.Proofs.Latest
import ApiContract.Proofs.Related

/-!
# Values in path templates

**Input:** a segment of a path template, and values by name.

A segment is made of characters and of names between braces (`parts`), as `params` reads them.
`substituted` puts the values in place of the names, all at once.  `filled` puts one after the
other, and so it may take braces of a value, or of the text around a name, for those of a name.

**Results:**

* `text_parts`, `params_eq`: a segment is the text of its parts, and their names are the parameters;
* `mem_params_iff`: the parameters are the texts between braces;
* `substituted_perm`: the order of values with different names does not matter;
* `filled_eq_substituted`: values that are put one after the other are put all at once, if no brace
  but those around names is there.
-/

namespace ApiContract
namespace Template

/-! ## Parts -/

/-- What a template is made of. -/
inductive Part
  | literal (c : Char)
  /-- A name between braces. -/
  | name (n : String)
deriving DecidableEq

def Part.text : Part → List Char
  | .literal c => [c]
  | .name n => mark n

/-- What has been read since a brace that no other has closed. -/
def begun : Option (List Char) → List Part
  | none => []
  | some n => .literal '\x7b' :: n.reverse.map .literal

/-- The part that a closing brace ends, or is. -/
def closed : Option (List Char) → Part
  | none => .literal '\x7d'
  | some n => .name (String.ofList n.reverse)

/-- The parts of a template; `open?` holds what has been read since an opening brace. -/
def partsFrom (open? : Option (List Char)) : List Char → List Part
  | [] => begun open?
  | c :: cs =>
    if c = '\x7b' then begun open? ++ partsFrom (some []) cs
    else if c = '\x7d' then closed open? :: partsFrom none cs
    else (if open?.isSome then [] else [.literal c]) ++ partsFrom (open?.map (c :: ·)) cs

/-- The parts of a template. -/
def parts (s : List Char) : List Part :=
  partsFrom none s

def isBrace (c : Char) : Bool :=
  c = '\x7b' || c = '\x7d'

/-- A text holds no brace. -/
def BraceFree (s : List Char) : Prop :=
  ∀ c ∈ s, isBrace c = false

instance (s : List Char) : Decidable (BraceFree s) :=
  List.decidableBAll (isBrace · = false) s

/-- A part is a brace that stands around no name. -/
def Part.isLoose : Part → Bool
  | .literal c => isBrace c
  | .name _ => false

/-- A part with the value of its name in its place, if there is one. -/
def Part.put (values : List (String × String)) : Part → List Char
  | .literal c => [c]
  | .name n => ((values.lookup n).map String.toList).getD (mark n)

/-- A text with values in place of names, all at once. -/
def substituted (values : List (String × String)) (s : List Char) : List Char :=
  (parts s).flatMap (Part.put values)

section Parts

variable {s : List Char} {open? : Option (List Char)}

theorem text_literals (s : List Char) : (s.map Part.literal).flatMap Part.text = s := by
  rw [List.flatMap_map]
  exact List.flatMap_singleton' s

theorem text_begun (n : List Char) :
    (begun (some n)).flatMap Part.text = '\x7b' :: n.reverse := by
  rw [begun, List.flatMap_cons, text_literals]
  rfl

theorem text_partsFrom (open? : Option (List Char)) (s : List Char) :
    (partsFrom open? s).flatMap Part.text = (begun open?).flatMap Part.text ++ s := by
  induction s generalizing open? with
  | nil => rw [partsFrom, List.append_nil]
  | cons c cs ih =>
      rw [partsFrom]
      split
      · rename_i hc
        rw [List.flatMap_append, ih, hc]
        rfl
      split
      · rename_i hc
        rw [List.flatMap_cons, ih, hc]
        cases open? with
        | none => rfl
        | some n =>
            rw [text_begun]
            simp [begun, closed, Part.text, mark]
      · rw [List.flatMap_append, ih]
        cases open? with
        | none => rfl
        | some n => simp [text_begun]

/-- A template is the text of its parts. -/
theorem text_parts (s : List Char) : (parts s).flatMap Part.text = s :=
  text_partsFrom none s

/-- Names hold no braces. -/
theorem braceFree_of_mem_partsFrom (hopen : ∀ n, open? = some n → BraceFree n) {n : String}
    (h : .name n ∈ partsFrom open? s) : BraceFree n.toList := by
  induction s generalizing open? with
  | nil =>
      cases open? <;> simp [partsFrom, begun] at h
  | cons c cs ih =>
      have hnone : ∀ n, (none : Option (List Char)) = some n → BraceFree n := nofun
      rw [partsFrom] at h
      split at h
      · rcases List.mem_append.1 h with h | h
        · cases open? <;> simp [begun] at h
        · refine ih (fun n hn => ?_) h
          obtain rfl := Option.some.inj hn
          exact List.forall_mem_nil _
      rename_i hopens
      split at h
      · rcases List.mem_cons.1 h with he | h
        · cases open? with
          | none => cases he
          | some m =>
              obtain rfl := Part.name.inj he
              intro b hb
              exact hopen m rfl b (by simpa using hb)
        · exact ih hnone h
      · rename_i hcloses
        rcases List.mem_append.1 h with h | h
        · cases open? <;> simp at h
        · refine ih (fun n hn b hb => ?_) h
          obtain ⟨m, hm, rfl⟩ := Option.map_eq_some_iff.1 hn
          rcases List.mem_cons.1 hb with rfl | hb
          · simp [isBrace, hopens, hcloses]
          · exact hopen m hm b hb

theorem braceFree_of_mem_parts {n : String} (h : .name n ∈ parts s) : BraceFree n.toList := by
  have hnone : ∀ n, (none : Option (List Char)) = some n → BraceFree n := nofun
  exact braceFree_of_mem_partsFrom hnone h

/-- The name of a part, unless the braces are empty. -/
def Part.param? : Part → Option String
  | .literal _ => none
  | .name n => if n.toList = [] then none else some n

theorem param?_eq_some_iff {p : Part} {name : String} :
    p.param? = some name ↔ p = .name name ∧ name ≠ "" := by
  cases p with
  | literal c => simp [Part.param?]
  | name n =>
      simp only [Part.param?, Part.name.injEq]
      split
      · rename_i hempty
        simp only [reduceCtorEq, false_iff, not_and, not_not]
        rintro rfl
        exact String.toList_inj.1 hempty
      · rename_i hne
        simp only [Option.some.injEq, iff_self_and]
        rintro rfl rfl
        exact hne rfl

theorem paramsFrom_eq (open? : Option (List Char)) (s : List Char) :
    (paramsFrom open? s).map String.ofList = (partsFrom open? s).filterMap Part.param? := by
  have hbegun : ∀ open?, (begun open?).filterMap Part.param? = [] := by
    intro open?
    cases open? <;> simp [begun, Part.param?, List.filterMap_cons, List.filterMap_map]
  induction s generalizing open? with
  | nil => rw [partsFrom, hbegun]; rfl
  | cons c cs ih =>
      unfold paramsFrom partsFrom
      split
      · rw [List.filterMap_append, hbegun, List.nil_append, ih]
      split
      · cases open? with
        | none => exact ih none
        | some n =>
            cases n with
            | nil => simpa [closed, Part.param?] using ih none
            | cons d ds => simpa [closed, Part.param?] using ih none
      · cases open? with
        | none => exact ih none
        | some n => exact ih (some (c :: n))

/-- The parameters of a template are the names of its parts. -/
theorem params_eq (template : String) :
    params template = (parts template.toList).filterMap Part.param? :=
  paramsFrom_eq none template.toList

/-- A name without braces is read until its closing brace. -/
theorem partsFrom_closing {n : List Char} (hn : BraceFree n) (m s : List Char) :
    partsFrom (some m) (n ++ '\x7d' :: s) = closed (some (n.reverse ++ m)) :: partsFrom none s := by
  induction n generalizing m with
  | nil => simp [partsFrom]
  | cons c n ih =>
      have hc : isBrace c = false := hn c List.mem_cons_self
      have hrest : BraceFree n := fun b hb => hn b (List.mem_cons_of_mem c hb)
      have hopens : c ≠ '\x7b' := by
        rintro rfl
        cases hc
      have hcloses : c ≠ '\x7d' := by
        rintro rfl
        cases hc
      rw [List.cons_append, partsFrom, if_neg hopens, if_neg hcloses]
      simpa using ih hrest (c :: m)

/-- A name between braces is a part wherever it stands: a brace that opens starts over. -/
theorem partsFrom_append_mark (open? : Option (List Char)) {n : String} (hn : BraceFree n.toList)
    (before after : List Char) : partsFrom open? (before ++ (mark n ++ after)) =
      partsFrom open? before ++ .name n :: parts after := by
  induction before generalizing open? with
  | nil =>
      have hmark : mark n ++ after = '\x7b' :: (n.toList ++ '\x7d' :: after) := by simp [mark]
      have hopened : partsFrom open? (mark n ++ after) =
          begun open? ++ partsFrom (some []) (n.toList ++ '\x7d' :: after) := by
        rw [hmark, partsFrom, if_pos rfl]
      rw [List.nil_append, hopened, partsFrom_closing hn]
      simp [closed, partsFrom, parts]
  | cons c before ih =>
      rw [List.cons_append, partsFrom, partsFrom]
      split
      · rw [ih, List.append_assoc]
      split
      · rw [ih, List.cons_append]
      · rw [ih, List.append_assoc]

/-- The parameters of a template are what stands between braces, if it is not empty and has no
brace. -/
theorem mem_params_iff {template name : String} :
    name ∈ params template ↔
      name ≠ "" ∧ BraceFree name.toList ∧ mark name <:+: template.toList := by
  rw [params_eq, List.mem_filterMap]
  constructor
  · rintro ⟨part, hpart, hname⟩
    obtain ⟨rfl, hne⟩ := param?_eq_some_iff.1 hname
    have hinfix := infix_flatMap (f := Part.text) hpart
    rw [text_parts] at hinfix
    exact ⟨hne, braceFree_of_mem_parts hpart, hinfix⟩
  · rintro ⟨hne, hfree, before, after, htext⟩
    refine ⟨.name name, ?_, param?_eq_some_iff.2 ⟨rfl, hne⟩⟩
    rw [parts, ← htext, List.append_assoc, partsFrom_append_mark none hfree]
    exact List.mem_append_right _ List.mem_cons_self

end Parts

/-! ## One name -/

section Replaced

variable {m v a s : List Char} {n n' : String}

/-- The characters of an occurrence are passed over. -/
theorem replaced_skip (m v a s : List Char) :
    replaced m v a.length (a ++ s) = replaced m v 0 s := by
  induction a with
  | nil => rfl
  | cons c a ih => exact ih

theorem replaced_cons_of_begins {c : Char} (h : m.isPrefixOf (c :: s) = true) :
    replaced m v 0 (c :: s) = v ++ replaced m v (m.length - 1) s := by
  rw [replaced, if_pos h]

theorem replaced_cons_of_not_begins {c : Char} (h : m.isPrefixOf (c :: s) = false) :
    replaced m v 0 (c :: s) = c :: replaced m v 0 s := by
  rw [replaced, if_neg (Bool.eq_false_iff.1 h)]

/-- A name that stands there is replaced. -/
theorem replaced_mark (n : String) (v s : List Char) :
    replaced (mark n) v 0 (mark n ++ s) = v ++ replaced (mark n) v 0 s := by
  have hprefix : (mark n).isPrefixOf (mark n ++ s) = true :=
    List.isPrefixOf_iff_prefix.2 (List.prefix_append _ _)
  have hrest : replaced (mark n) v ((mark n).length - 1) (n.toList ++ ['\x7d'] ++ s) =
      replaced (mark n) v 0 s := replaced_skip _ _ (n.toList ++ ['\x7d']) s
  exact (replaced_cons_of_begins hprefix).trans (congrArg (v ++ ·) hrest)

/-- In a text without an opening brace nothing is replaced. -/
theorem replaced_append_of_not_mem (h : '\x7b' ∉ a) :
    replaced (mark n) v 0 (a ++ s) = a ++ replaced (mark n) v 0 s := by
  induction a with
  | nil => rfl
  | cons c a ih =>
      rw [List.mem_cons, not_or] at h
      obtain ⟨hc, ha⟩ := h
      have hprefix : (mark n).isPrefixOf (c :: (a ++ s)) = false := by
        simp [mark, List.isPrefixOf, hc]
      rw [List.cons_append, replaced_cons_of_not_begins hprefix, ih ha, List.cons_append]

/-- Names without braces are told apart by what stands before the closing brace. -/
theorem eq_of_mark_begins (hn : BraceFree n.toList) (hn' : BraceFree n'.toList)
    (h : mark n <+: mark n' ++ s) : n = n' := by
  obtain ⟨r, hr⟩ := h
  have htails : n.toList ++ '\x7d' :: r = n'.toList ++ '\x7d' :: s := by
    simpa [mark] using hr
  have hopen : ∀ {n : String} (_ : BraceFree n.toList) (t : List Char),
      (n.toList ++ '\x7d' :: t).takeWhile (!isBrace ·) = n.toList := by
    intro n hn t
    rw [List.takeWhile_append_of_pos fun c hc => by simp [hn c hc]]
    simp [isBrace]
  rw [← String.toList_inj, ← hopen hn r, htails, hopen hn' s]

/-- Another name stays. -/
theorem replaced_mark_of_ne (hn : BraceFree n.toList) (hn' : BraceFree n'.toList) (hne : n ≠ n') :
    replaced (mark n) v 0 (mark n' ++ s) = mark n' ++ replaced (mark n) v 0 s := by
  have hprefix : (mark n).isPrefixOf (mark n' ++ s) = false := by
    rw [← Bool.not_eq_true, List.isPrefixOf_iff_prefix]
    exact fun h => hne (eq_of_mark_begins hn hn' h)
  have hopen : '\x7b' ∉ n'.toList ++ ['\x7d'] := by
    intro h
    rcases List.mem_append.1 h with h | h
    · exact absurd (hn' _ h) (by decide)
    · exact absurd (List.mem_singleton.1 h) (by decide)
  exact (replaced_cons_of_not_begins hprefix).trans
    (congrArg ('\x7b' :: ·) (replaced_append_of_not_mem hopen))

end Replaced

/-! ## All names -/

/-- A part in which no brace stands but those around its name, and whose value holds none. -/
def Part.Tidy (values : List (String × String)) : Part → Prop
  | .literal c => isBrace c = false
  | .name n => BraceFree n.toList ∧ ∀ v, values.lookup n = some v → BraceFree v.toList

/-- A part with a value in place of a name. -/
def Part.with (n v : String) (p : Part) : List Part :=
  if p = .name n then v.toList.map .literal else [p]

section Filled

variable {values values' : List (String × String)} {ps : List Part} {n v : String} {s : List Char}

/-- Replacing a name is putting the value for its part. -/
theorem replaced_text (hn : BraceFree n.toList) (h : ∀ p ∈ ps, p.Tidy values) :
    replaced (mark n) v.toList 0 (ps.flatMap Part.text) =
      (ps.flatMap (Part.with n v)).flatMap Part.text := by
  induction ps with
  | nil => rfl
  | cons p ps ih =>
      have hrest := ih fun p hp => h p (List.mem_cons_of_mem _ hp)
      have hp := h p List.mem_cons_self
      rw [List.flatMap_cons, List.flatMap_cons, List.flatMap_append, ← hrest]
      cases p with
      | literal c =>
          have hopen : '\x7b' ∉ [c] := by
            intro hc
            rw [← List.mem_singleton.1 hc] at hp
            cases hp
          exact replaced_append_of_not_mem hopen
      | name n' =>
          by_cases he : n' = n
          · subst he
            rw [Part.with, if_pos rfl, text_literals]
            exact replaced_mark n' _ _
          · rw [Part.with, if_neg fun h => he (Part.name.inj h)]
            simp only [List.flatMap_cons, List.flatMap_nil, List.append_nil]
            exact replaced_mark_of_ne hn hp.1 (Ne.symm he)

theorem lookup_cons_of_ne {n' : String} (h : n' ≠ n) :
    ((n, v) :: values).lookup n' = values.lookup n' := by
  have hb : (n' == n) = false := by simpa using h
  rw [List.lookup_cons, hb]

/-- Once a value is put, the parts are still tidy, and the others are left to put. -/
theorem tidy_with {p q : Part} (hp : p.Tidy ((n, v) :: values)) (hq : q ∈ p.with n v) :
    q.Tidy values := by
  unfold Part.with at hq
  split at hq
  · rename_i he
    subst he
    obtain ⟨c, hc, rfl⟩ := List.mem_map.1 hq
    exact hp.2 v (by simp) c hc
  · rename_i hne
    obtain rfl := List.mem_singleton.1 hq
    cases q with
    | literal c => exact hp
    | name n' =>
        have hn : n' ≠ n := fun he => hne (he ▸ rfl)
        refine ⟨hp.1, fun w hw => hp.2 w ?_⟩
        rwa [lookup_cons_of_ne hn]

theorem put_with (p : Part) :
    (p.with n v).flatMap (Part.put values) = p.put ((n, v) :: values) := by
  unfold Part.with
  split
  · rename_i he
    subst he
    simp [Part.put, List.flatMap_map]
  · rename_i hne
    rw [List.flatMap_singleton]
    cases p with
    | literal c => rfl
    | name n' =>
        have hn : n' ≠ n := fun he => hne (he ▸ rfl)
        rw [Part.put, Part.put, lookup_cons_of_ne hn]

/-- Values that are put one after another are put all at once. -/
theorem filled_text (hnames : ∀ e ∈ values, BraceFree e.1.toList) (h : ∀ p ∈ ps, p.Tidy values) :
    filled values (ps.flatMap Part.text) = ps.flatMap (Part.put values) := by
  induction values generalizing ps with
  | nil =>
      have hput : Part.text = Part.put [] := by
        funext p
        cases p <;> rfl
      rw [hput]
      rfl
  | cons e values ih =>
      obtain ⟨n, v⟩ := e
      have hstep : filled ((n, v) :: values) (ps.flatMap Part.text) =
          filled values (replaced (mark n) v.toList 0 (ps.flatMap Part.text)) := rfl
      have htidy : ∀ q ∈ ps.flatMap (Part.with n v), q.Tidy values := by
        intro q hq
        obtain ⟨p, hp, hq⟩ := List.mem_flatMap.1 hq
        exact tidy_with (h p hp) hq
      rw [hstep, replaced_text (hnames _ List.mem_cons_self) h,
        ih (fun e he => hnames e (List.mem_cons_of_mem _ he)) htidy, List.flatMap_assoc]
      exact congrArg (ps.flatMap ·) (funext put_with)

theorem filled_eq_substituted (hnames : ∀ e ∈ values, BraceFree e.1.toList)
    (h : ∀ p ∈ parts s, p.Tidy values) : filled values s = substituted values s := by
  have hfilled := filled_text hnames h
  rwa [text_parts] at hfilled

/-- If no brace is left, every name had a value, and no value held a brace. -/
theorem tidy_of_braceFree (h : BraceFree (substituted values s)) :
    ∀ p ∈ parts s, p.Tidy values := by
  intro p hp
  have hput : BraceFree (p.put values) := fun c hc => h c (List.mem_flatMap.2 ⟨p, hp, hc⟩)
  cases p with
  | literal c => exact hput c List.mem_cons_self
  | name n =>
      refine ⟨braceFree_of_mem_parts hp, fun v hv => ?_⟩
      rw [Part.put, hv] at hput
      exact hput

/-- If all braces stand around names, and no value holds one, the parts are tidy. -/
theorem tidy_of_values (hloose : ∀ p ∈ parts s, p.isLoose = false)
    (hvalues : ∀ e ∈ values, BraceFree e.2.toList) : ∀ p ∈ parts s, p.Tidy values := by
  intro p hp
  cases p with
  | literal c => exact hloose _ hp
  | name n =>
      refine ⟨braceFree_of_mem_parts hp, fun v hv => ?_⟩
      obtain ⟨before, after, he, -⟩ := List.lookup_eq_some_iff.1 hv
      exact hvalues (n, v) (he ▸ List.mem_append_right _ List.mem_cons_self)

/-- Of values with different names each is found under its own. -/
theorem lookup_eq_some_iff_mem (hn : (values.map Prod.fst).Nodup) :
    values.lookup n = some v ↔ (n, v) ∈ values := by
  constructor
  · intro h
    obtain ⟨before, after, rfl, -⟩ := List.lookup_eq_some_iff.1 h
    exact List.mem_append_right _ List.mem_cons_self
  · intro h
    refine Assoc.lookup_eq_some_of_unique h fun w hw => ?_
    exact (Prod.mk.inj (List.inj_on_of_nodup_map hn hw h rfl)).2

/-- The order of values with different names does not matter. -/
theorem substituted_perm (hn : (values.map Prod.fst).Nodup) (hp : values.Perm values')
    (s : List Char) : substituted values s = substituted values' s := by
  have hn' : (values'.map Prod.fst).Nodup := (hp.map Prod.fst).nodup hn
  have hlookup : ∀ n, values.lookup n = values'.lookup n := fun n => Option.ext fun v => by
    rw [lookup_eq_some_iff_mem hn, lookup_eq_some_iff_mem hn', hp.mem_iff]
  have hput : Part.put values = Part.put values' := by
    funext p
    cases p with
    | literal c => rfl
    | name n => rw [Part.put, Part.put, hlookup]
  rw [substituted, substituted, hput]

end Filled

end Template
end ApiContract
