import ApiContract.Proofs.Exchanges
import ApiContract.Target.Configuration

/-!
# The order of targets

**Input:** the lines of a configuration file.

A header with two names opens a table in a group of tables.  Such a table stands behind all that
were opened before it, and no line moves it or closes it again.

**Results:**

* `Heads.header?`, `KeepsHeads`: a header adds its table behind the others, and no other line
  changes their order;
* `opened_of_take?`, `opened_of_lines`: what one line adds to a group of tables, and what all lines
  do;
* `inTextOrder_of_listOfToml?`: targets that headers open stand in the order of their headers.
-/

namespace ApiContract

namespace Assoc

variable {κ α : Type} [BEq κ]

theorem put_of_not_mem [LawfulBEq κ] {k : κ} {v : α} {a : Assoc κ α} (h : k ∉ a.map Prod.fst) :
    a.put k v = a ++ [(k, v)] :=
  put_eq_append fun _ he => beq_false_of_ne fun hk => h (hk ▸ List.mem_map_of_mem he)

/-- The keys of a map stay in their order when a value is put into it. -/
theorem keys_sublist_put (k : κ) (v : α) (a : Assoc κ α) :
    (a.map Prod.fst).Sublist ((a.put k v).map Prod.fst) := by
  rw [keys_put]
  split
  · exact List.Sublist.refl _
  · exact List.sublist_append_left _ _

theorem keys_drop (k : κ) (a : Assoc κ α) :
    (a.drop k).map Prod.fst = (a.map Prod.fst).filter (!· == k) := by
  rw [drop, List.filter_map]
  rfl

end Assoc

namespace Toml

/-! ## Tables inside tables -/

/-- Entries before and after the table of a key is changed. -/
inductive Enters (inside : Origin → Entries → Option Entries) (k : String) (es : Entries) :
    Entries → Prop
  | missing {made : Origin} {inner : Entries} :
      es.get? k = none → inside made [] = some inner →
        Enters inside k es (es.put k (.table made inner))
  | table {origin : Origin} {inner inner' : Entries} :
      es.get? k = some (.table origin inner) → inside origin inner = some inner' →
      Enters inside k es (es.put k (.table origin inner'))
  | tables {closed : List Node} {last last' : Entries} :
      es.get? k = some (.tables closed last) → inside .header last = some last' →
      Enters inside k es (es.put k (.tables closed last'))

section Entering

variable {dotted : Bool} {change : Origin → Entries → Option Entries} {k : String}
  {path keys : List String} {origin : Origin} {es es' : Entries}

theorem enters_of_at? (h : Entries.at? dotted change (k :: path) origin es = some es') :
    Enters (Entries.at? dotted change path) k es es' := by
  rw [Entries.at?] at h
  split at h
  · rename_i hk
    obtain ⟨inner, hinner, rfl⟩ := Option.map_eq_some_iff.1 h
    exact .missing hk hinner
  · cases h
  · rename_i hk
    split at h
    · cases h
    · obtain ⟨inner, hinner, rfl⟩ := Option.map_eq_some_iff.1 h
      exact .table hk hinner
  · rename_i hk
    obtain ⟨last, hlast, rfl⟩ := Option.map_eq_some_iff.1 h
    exact .tables hk hlast

theorem Enters.mono {inside inside' : Origin → Entries → Option Entries}
    (hsub : ∀ {origin inner inner'}, inside origin inner = some inner' →
      inside' origin inner = some inner')
    (h : Enters inside k es es') : Enters inside' k es es' := by
  cases h with
  | missing hk hin => exact .missing hk (hsub hin)
  | table hk hin => exact .table hk (hsub hin)
  | tables hk hin => exact .tables hk (hsub hin)

/-- Where a change does not ask for the origin of a table, neither does the way to it. -/
theorem at?_origin (hchange : ∀ o o' es, change o es = change o' es) (path : List String)
    (o o' : Origin) (es : Entries) :
    Entries.at? dotted change path o es = Entries.at? dotted change path o' es := by
  cases path with
  | nil => exact hchange o o' es
  | cons k path => rfl

/-- What the last of several keys leads to is changed inside the table of the first. -/
theorem enters_of_atLast? {change : String → Entries → Option Entries} {l : String}
    (h : Entries.atLast? change (k :: l :: keys) es = some es') :
    Enters (fun _ => Entries.atLast? change (l :: keys)) k es es' := by
  unfold Entries.atLast? at h ⊢
  rw [List.getLast?_cons_cons] at h
  split at h
  · cases h
  · rename_i key _
    exact (enters_of_at? h).mono fun {o inner _} hin =>
      (at?_origin (fun _ _ _ => rfl) _ _ o inner).trans hin

theorem enters_of_insertBelow? {header : List String} {v : Item}
    (h : Entries.insertBelow? (k :: header) keys v es = some es') :
    Enters (fun _ => Entries.insertBelow? header keys v) k es es' :=
  (enters_of_at? h).mono fun {o inner _} hin =>
    (at?_origin (fun _ _ _ => rfl) _ _ o inner).trans hin

end Entering

/-! ## Tables that headers have opened -/

/-- The only one of several keys. -/
def sole? : List String → Option String
  | [k] => some k
  | [] => none
  | _ :: _ :: _ => none

/-- Headers have opened the tables of the given names in their order, and all of them are there. -/
structure Heads (names : List String) (es : Entries) : Prop where
  /-- No key is there twice. -/
  keys : (es.map Prod.fst).Nodup
  /-- The tables stand in their order. -/
  order : names.Sublist (es.map Prod.fst)
  /-- They are tables of headers. -/
  heads : ∀ n ∈ names, ∃ inner, es.get? n = some (.table .header inner)

namespace Heads

variable {names : List String} {es es' : Entries} {k : String} {i : Item}

theorem nil : Heads [] [] :=
  ⟨List.nodup_nil, List.Sublist.refl _, nofun⟩

theorem not_mem (h : Heads names es) (hk : ∀ inner, es.get? k ≠ some (.table .header inner)) :
    k ∉ names := by
  intro hmem
  obtain ⟨inner, hinner⟩ := h.heads k hmem
  exact hk inner hinner

/-- An item may take the place of another that is no table of a header. -/
theorem put (h : Heads names es) (hi : ∀ inner, es.get? k = some (.table .header inner) →
    ∃ inner', i = .table .header inner') : Heads names (es.put k i) where
  keys := Assoc.nodup_keys_put h.keys
  order := h.order.trans (Assoc.keys_sublist_put k i es)
  heads n hn := by
    obtain ⟨inner, hinner⟩ := h.heads n hn
    by_cases hk : n = k
    · subst hk
      obtain ⟨inner', rfl⟩ := hi inner hinner
      exact ⟨inner', Assoc.get?_put_self n _ es⟩
    · exact ⟨inner, (Assoc.get?_put_of_ne hk i es).trans hinner⟩

theorem put_other (h : Heads names es) (hk : ∀ inner, es.get? k ≠ some (.table .header inner)) :
    Heads names (es.put k i) :=
  h.put fun inner hinner => absurd hinner (hk inner)

/-- The tables are there after a table of another name is added behind them. -/
theorem snoc (h : Heads names es) (hk : k ∉ es.map Prod.fst) (inner : Entries) :
    Heads (names ++ [k]) (es ++ [(k, .table .header inner)]) := by
  refine ⟨?_, ?_, ?_⟩
  · rw [List.map_append, List.nodup_append]
    refine ⟨h.keys, List.nodup_singleton k, ?_⟩
    intro n hn _ hk' hne
    obtain rfl := hne.trans (List.mem_singleton.1 hk')
    exact hk hn
  · rw [List.map_append]
    exact h.order.append (List.Sublist.refl _)
  · intro n hn
    rw [Assoc.get?_append]
    rcases List.mem_append.1 hn with hn | hn
    · obtain ⟨inner', hinner⟩ := h.heads n hn
      exact ⟨inner', by rw [hinner, Option.some_or]⟩
    · obtain rfl := List.mem_singleton.1 hn
      refine ⟨inner, ?_⟩
      rw [Assoc.get?, Assoc.lookup_eq_none_iff_not_mem.2 hk, Option.none_or]
      simp [Assoc.get?]

/-- An item that is no table of a header may be left out. -/
theorem drop (h : Heads names es) (hk : k ∉ names) : Heads names (es.drop k) where
  keys := by
    rw [Assoc.keys_drop]
    exact h.keys.filter _
  order := by
    have hnames : names.filter (!· == k) = names :=
      List.filter_eq_self.2 fun n hn => by simpa using fun hn' : n = k => hk (hn' ▸ hn)
    rw [Assoc.keys_drop, ← hnames]
    exact h.order.filter _
  heads n hn := by
    obtain ⟨inner, hinner⟩ := h.heads n hn
    have hne : n ≠ k := fun hn' => hk (hn' ▸ hn)
    exact ⟨inner, (Assoc.get?_drop_of_ne hne es).trans hinner⟩

/-- What is changed in a table inside a table leaves the order of the outer one alone. -/
theorem enters {inside : Origin → Entries → Option Entries} (hin : Enters inside k es es')
    (h : Heads names es) : Heads names es' := by
  cases hin with
  | missing hk _ => exact h.put_other fun inner => by rw [hk]; exact nofun
  | table hk _ =>
      refine h.put fun inner hinner => ?_
      rw [hk] at hinner
      obtain ⟨rfl, -⟩ := Item.table.inj (Option.some.inj hinner)
      exact ⟨_, rfl⟩
  | tables hk _ => exact h.put_other fun inner => by rw [hk]; exact nofun

/-- A header opens a table of its own, or one inside another. -/
theorem header? {l : String} {keys : List String}
    (hheader : Entries.header? (l :: keys) es = some es') (h : Heads names es) :
    Heads (names ++ (sole? (l :: keys)).toList) es' := by
  cases keys with
  | cons m keys =>
      rw [sole?, Option.toList_none, List.append_nil]
      exact h.enters (enters_of_atLast? hheader)
  | nil =>
      have hopen : Entries.openTable? l es = some es' := hheader
      unfold Entries.openTable? at hopen
      rw [sole?, Option.toList_some]
      split at hopen
      · rename_i hl
        obtain rfl := Option.some.inj hopen
        have hnew : l ∉ es.map Prod.fst := Assoc.lookup_eq_none_iff_not_mem.1 hl
        rw [Assoc.put_of_not_mem hnew]
        exact h.snoc hnew []
      · rename_i inner hl
        obtain rfl := Option.some.inj hopen
        have hnew : l ∉ (es.drop l).map Prod.fst :=
          Assoc.lookup_eq_none_iff_not_mem.1 (Assoc.get?_drop_self l es)
        have hdrop : l ∉ names := h.not_mem fun inner' => by rw [hl]; exact nofun
        exact (h.drop hdrop).snoc hnew inner
      · cases hopen

end Heads

/-- A change leaves the tables that headers have opened where they are. -/
def KeepsHeads (change : Origin → Entries → Option Entries) : Prop :=
  ∀ ⦃origin es es' names⦄, change origin es = some es' → Heads names es → Heads names es'

namespace KeepsHeads

theorem at? {change : Origin → Entries → Option Entries} (h : KeepsHeads change) (dotted : Bool)
    (path : List String) : KeepsHeads (Entries.at? dotted change path) := by
  intro origin es es' names hat
  cases path with
  | nil => exact h hat
  | cons k path => exact Heads.enters (enters_of_at? hat)

theorem atLast? {change : String → Entries → Option Entries}
    (h : ∀ k, KeepsHeads fun _ => change k) (keys : List String) :
    KeepsHeads fun _ => Entries.atLast? change keys := by
  intro origin es es' names hlast
  dsimp only [Entries.atLast?] at hlast
  split at hlast
  · cases hlast
  · rename_i k _
    exact (h k).at? false keys.dropLast hlast

/-- A table of a list is no table of a header. -/
theorem openNext? (k : String) : KeepsHeads fun _ => Entries.openNext? k := by
  intro origin es es' names hnext h
  dsimp only [Entries.openNext?] at hnext
  split at hnext
  · rename_i hk
    obtain rfl := Option.some.inj hnext
    exact h.put_other fun inner => by rw [hk]; exact nofun
  · rename_i hk
    obtain rfl := Option.some.inj hnext
    exact h.put_other fun inner => by rw [hk]; exact nofun
  · cases hnext

/-- A value is put where nothing is. -/
theorem leaf (top : Bool) (k : String) (v : Item) : KeepsHeads fun origin es =>
    if (origin == .dotted) == top then none
    else if (es.get? k).isSome then none else some (es.put k v) := by
  intro origin es es' names hput h
  dsimp only at hput
  split at hput
  · cases hput
  · split at hput
    · cases hput
    · rename_i hk
      obtain rfl := Option.some.inj hput
      rw [Option.not_isSome_iff_eq_none] at hk
      exact h.put_other fun inner => by rw [hk]; exact nofun

theorem insert? (keys : List String) (v : Item) : KeepsHeads fun _ => Entries.insert? keys v := by
  intro origin es es' names hinsert
  dsimp only [Entries.insert?] at hinsert
  split at hinsert
  · cases hinsert
  · rename_i k _
    exact (leaf keys.dropLast.isEmpty k v).at? true keys.dropLast hinsert

theorem insertBelow? (header keys : List String) (v : Item) :
    KeepsHeads fun _ => Entries.insertBelow? header keys v :=
  fun _ _ _ _ h => (insert? keys v).at? false header h

end KeepsHeads

/-! ## Lines -/

/-- The table that a line opens in a group of tables by a header of its own. -/
def Line.opened? (group : String) : Line → Option String
  | .header (key :: keys) => if key = group then sole? keys else none
  | .header [] => none
  | .listHeader _ => none
  | .entry _ _ => none

/-- Headers have opened the given tables of a group in their order.  A list of tables is no
group. -/
def Opened (group : String) (names : List String) (es : Entries) : Prop :=
  match es.get? group with
  | none => names = []
  | some (.value _) => names = []
  | some (.table _ inner) => Heads names inner
  | some (.tables _ _) => True

namespace Opened

variable {group k : String} {names new : List String} {es es' : Entries} {i : Item}
  {inside : Origin → Entries → Option Entries}

theorem congr (he : es'.get? group = es.get? group) (h : Opened group names es) :
    Opened group names es' := by
  rw [Opened, he]
  exact h

theorem put_of_ne (hk : k ≠ group) (h : Opened group names es) : Opened group names (es.put k i) :=
  h.congr (Assoc.get?_put_of_ne hk.symm i es)

/-- Another key does not matter. -/
theorem enters_of_ne (hk : k ≠ group) (hin : Enters inside k es es') (h : Opened group names es) :
    Opened group names es' := by
  cases hin with
  | missing _ _ => exact h.put_of_ne hk
  | table _ _ => exact h.put_of_ne hk
  | tables _ _ => exact h.put_of_ne hk

theorem enters (hin : Enters inside group es es')
    (hnew : ∀ ⦃origin inner inner' names⦄, inside origin inner = some inner' → Heads names inner →
      Heads (names ++ new) inner')
    (h : Opened group names es) : Opened group (names ++ new) es' := by
  cases hin with
  | missing hk hinner =>
      rw [Opened, hk] at h
      rw [Opened, Assoc.get?_put_self, h]
      exact hnew hinner Heads.nil
  | table hk hinner =>
      rw [Opened, hk] at h
      rw [Opened, Assoc.get?_put_self]
      exact hnew hinner h
  | tables _ _ =>
      rw [Opened, Assoc.get?_put_self]
      trivial

/-- What keeps the tables that headers have opened opens none. -/
theorem enters_of_keeps (hkeeps : KeepsHeads inside) (hin : Enters inside k es es')
    (h : Opened group names es) : Opened group names es' := by
  by_cases hk : k = group
  · subst hk
    rw [← List.append_nil names]
    refine h.enters hin fun origin inner inner' names hinner hheads => ?_
    rw [List.append_nil]
    exact hkeeps hinner hheads
  · exact h.enters_of_ne hk hin

/-- A group that a header opens is empty, or holds what longer headers have opened in it. -/
theorem openTable? (hopen : es.openTable? k = some es') (h : Opened group names es) :
    Opened group names es' := by
  unfold Entries.openTable? at hopen
  by_cases hk : k = group
  · subst hk
    split at hopen
    · rename_i hnone
      obtain rfl := Option.some.inj hopen
      rw [Opened, hnone] at h
      rw [Opened, Assoc.get?_put_self, h]
      exact Heads.nil
    · rename_i inner hmentioned
      obtain rfl := Option.some.inj hopen
      rw [Opened, hmentioned] at h
      rw [Opened, Assoc.get?_append, Assoc.get?_drop_self, Option.none_or]
      simpa [Assoc.get?] using h
    · cases hopen
  · split at hopen
    · obtain rfl := Option.some.inj hopen
      exact h.put_of_ne hk
    · rename_i inner _
      obtain rfl := Option.some.inj hopen
      have hother : Assoc.get? [(k, Item.table .header inner)] group = none :=
        Assoc.lookup_eq_none_iff_not_mem.2 fun hmem => hk (List.mem_singleton.1 hmem).symm
      refine h.congr ?_
      rw [Assoc.get?_append, hother, Option.or_none]
      exact Assoc.get?_drop_of_ne (Ne.symm hk) es
    · cases hopen

theorem header? {keys : List String} (hheader : es.header? keys = some es')
    (h : Opened group names es) :
    Opened group (names ++ ((Line.header keys).opened? group).toList) es' := by
  match keys with
  | [] => cases hheader
  | [k] =>
      have hnone : (Line.header [k]).opened? group = none := ite_self none
      rw [hnone, Option.toList_none, List.append_nil]
      exact h.openTable? hheader
  | k :: l :: keys =>
      have hin := enters_of_atLast? hheader
      by_cases hk : k = group
      · subst hk
        rw [Line.opened?, if_pos rfl]
        exact h.enters hin fun _ _ _ _ hinner => Heads.header? hinner
      · rw [Line.opened?, if_neg hk, Option.toList_none, List.append_nil]
        exact h.enters_of_ne hk hin

theorem listHeader? {keys : List String} (hheader : es.listHeader? keys = some es')
    (h : Opened group names es) : Opened group names es' := by
  match keys with
  | [] => cases hheader
  | [k] =>
      have hnext : es.openNext? k = some es' := hheader
      obtain ⟨closed, last, rfl⟩ : ∃ closed last, es' = es.put k (.tables closed last) := by
        unfold Entries.openNext? at hnext
        split at hnext
        · exact ⟨[], [], (Option.some.inj hnext).symm⟩
        · exact ⟨_, [], (Option.some.inj hnext).symm⟩
        · cases hnext
      by_cases hk : k = group
      · rw [hk, Opened, Assoc.get?_put_self]
        trivial
      · exact h.put_of_ne hk
  | k :: l :: keys =>
      exact h.enters_of_keeps (KeepsHeads.atLast? KeepsHeads.openNext? (l :: keys))
        (enters_of_atLast? hheader)

theorem insert? {keys : List String} {v : Node} (hinsert : es.insert? keys (.value v) = some es')
    (h : Opened group names es) : Opened group names es' := by
  match keys with
  | [] => cases hinsert
  | [k] =>
      have hput : (if (es.get? k).isSome then none else some (es.put k (.value v))) = some es' :=
        hinsert
      split at hput
      · cases hput
      · rename_i hfree
        obtain rfl := Option.some.inj hput
        by_cases hk : k = group
        · subst hk
          rw [Option.not_isSome_iff_eq_none] at hfree
          rw [Opened, hfree] at h
          rw [Opened, Assoc.get?_put_self]
          exact h
        · exact h.put_of_ne hk
  | k :: l :: keys =>
      unfold Entries.insert? at hinsert
      split at hinsert
      · cases hinsert
      · rename_i last _
        exact h.enters_of_keeps ((KeepsHeads.leaf false last (.value v)).at? true _)
          (enters_of_at? hinsert)

theorem insertBelow? {header keys : List String} {v : Node}
    (hinsert : es.insertBelow? header keys (.value v) = some es')
    (h : Opened group names es) : Opened group names es' := by
  cases header with
  | nil => exact h.insert? hinsert
  | cons k header =>
      exact h.enters_of_keeps (KeepsHeads.insertBelow? header keys (.value v))
        (enters_of_insertBelow? hinsert)

end Opened

/-- What one line adds to the tables of a group. -/
theorem opened_of_take? {group : String} {names : List String} {r r' : Reading} {line : Line}
    (hline : r.take? line = some r') (h : Opened group names r.entries) :
    Opened group (names ++ (line.opened? group).toList) r'.entries := by
  cases line with
  | header keys =>
      obtain ⟨es, hes, rfl⟩ := Option.map_eq_some_iff.1 hline
      exact h.header? hes
  | listHeader keys =>
      obtain ⟨es, hes, rfl⟩ := Option.map_eq_some_iff.1 hline
      rw [Line.opened?, Option.toList_none, List.append_nil]
      exact h.listHeader? hes
  | entry keys v =>
      obtain ⟨es, hes, rfl⟩ := Option.map_eq_some_iff.1 hline
      rw [Line.opened?, Option.toList_none, List.append_nil]
      exact h.insertBelow? hes

/-- What lines add to the tables of a group, one after another. -/
theorem opened_of_lines {group : String} {names : List String} {r r' : Reading} {lines : List Line}
    (hlines : lines.foldlM Reading.take? r = some r') (h : Opened group names r.entries) :
    Opened group (names ++ lines.filterMap (Line.opened? group)) r'.entries := by
  induction lines generalizing r names with
  | nil =>
      obtain rfl := Option.some.inj hlines
      rwa [List.filterMap_nil, List.append_nil]
  | cons line lines ih =>
      rw [List.foldlM_cons] at hlines
      obtain ⟨r₁, hline, hlines⟩ := Option.bind_eq_some_iff.1 hlines
      have hrest := ih hlines (opened_of_take? hline h)
      rw [List.append_assoc] at hrest
      rw [List.filterMap_cons]
      cases hopened : line.opened? group with
      | none => simpa [hopened] using hrest
      | some n => simpa [hopened] using hrest

theorem opened_of_entries? {s : String} {es : Entries} (h : entries? s = some es) (group : String) :
    ∃ lines, lines? s = some lines ∧ Opened group (lines.filterMap (Line.opened? group)) es := by
  obtain ⟨lines, hlines, h⟩ := Option.bind_eq_some_iff.1 h
  obtain ⟨r, hr, h⟩ := Option.bind_eq_some_iff.1 h
  obtain rfl := Option.some.inj h
  have hstart : Opened group [] ({} : Reading).entries := rfl
  exact ⟨lines, hlines, opened_of_lines hr hstart⟩

/-! ## Data -/

section Data

variable {name : String} {es : Entries} {slots : List (Option Node)}

theorem placeOf?_defaulted (name k : String) :
    Node.placeOf? [Node.defaulted name] (.text (some k)) =
      some (if name = k then some 0 else none) := by
  by_cases h : name = k
  · simp [Node.placeOf?, Node.text?, Node.defaulted, h]
  · simp [Node.placeOf?, Node.text?, Node.defaulted, h]

theorem assign?_of_given {n : Node}
    (h : Node.assign? [Node.defaulted name] [some n] (memberNodes es) = some slots) :
    slots = [some n] := by
  induction es with
  | nil => exact (Option.some.inj h).symm
  | cons e es ih =>
      rw [memberNodes, Node.assign?, placeOf?_defaulted] at h
      split at h
      · cases h
      · exact ih h
      · rename_i place hplace
        split at hplace
        · obtain rfl := Option.some.inj (Option.some.inj hplace)
          cases h
        · cases hplace

/-- What a table gives for a field is the item under its name. -/
theorem assign?_memberNodes
    (h : Node.assign? [Node.defaulted name] [none] (memberNodes es) = some slots) :
    slots = [(es.get? name).map Item.node] := by
  induction es with
  | nil => exact (Option.some.inj h).symm
  | cons e es ih =>
      obtain ⟨k, i⟩ := e
      rw [memberNodes, Node.assign?, placeOf?_defaulted] at h
      by_cases hk : name = k
      · subst hk
        rw [if_pos rfl] at h
        have hslots : slots = [some i.node] := assign?_of_given h
        simpa [Assoc.get?] using hslots
      · rw [if_neg hk] at h
        have hlookup : Assoc.get? ((k, i) :: es) name = Assoc.get? es name := by
          rw [Assoc.get?, List.lookup_cons, beq_false_of_ne hk]
          rfl
        rw [hlookup]
        exact ih h

theorem entries?_memberNodes (done : List (String × Node)) :
    Node.entries? some some done (memberNodes es) =
      some (Assoc.putAll done (es.map fun e => (e.1, e.2.node))) := by
  induction es generalizing done with
  | nil => rfl
  | cons e es ih => exact ih _

/-- The entries of a table are read in their order. -/
theorem map?_memberNodes {room : Nat} {named : List (String × Node)}
    (h : (Node.record (memberNodes es)).map? room some some = some named)
    (hkeys : (es.map Prod.fst).Nodup) : named.map Prod.fst = es.map Prod.fst := by
  have hkeys' : (es.map fun e => (e.1, e.2.node)).map Prod.fst = es.map Prod.fst := by
    rw [List.map_map]
    rfl
  unfold Node.map? at h
  split at h
  · cases h
  · rw [Node.members?, Option.bind_some, entries?_memberNodes,
      Assoc.putAll_eq_iff.2 (hkeys'.symm ▸ hkeys)] at h
    obtain rfl := Option.some.inj h
    exact hkeys'

end Data

end Toml

/-! ## Targets -/

namespace Target

theorem name_of_ofNode? {name : String} {n : Node} {t : Target} (h : ofNode? name n = some t) :
    t.name = name := by
  unfold ofNode? at h
  obtain ⟨given, -, h⟩ := Option.bind_eq_some_iff.1 h
  split at h
  · obtain ⟨spec, -, h⟩ := Option.bind_eq_some_iff.1 h
    obtain ⟨output, -, h⟩ := Option.bind_eq_some_iff.1 h
    obtain ⟨namePrefix, -, h⟩ := Option.bind_eq_some_iff.1 h
    obtain ⟨client, -, h⟩ := Option.bind_eq_some_iff.1 h
    obtain ⟨bundle, -, h⟩ := Option.bind_eq_some_iff.1 h
    obtain rfl := Option.some.inj h
    rfl
  · cases h

theorem names_of_mapM {named : List (String × Node)} {ts : List Target}
    (h : (named.mapM fun e => ofNode? e.1 e.2) = some ts) : ts.map name = named.map Prod.fst := by
  induction named generalizing ts with
  | nil =>
      obtain rfl := Option.some.inj h
      rfl
  | cons e named ih =>
      rw [List.mapM_cons] at h
      obtain ⟨t, ht, h⟩ := Option.bind_eq_some_iff.1 h
      obtain ⟨ts', hts, h⟩ := Option.bind_eq_some_iff.1 h
      obtain rfl := Option.some.inj h
      rw [List.map_cons, List.map_cons, name_of_ofNode? ht, ih hts]

/-- The targets of a table are named by its keys. -/
theorem names_of_listOfNode? {n : Node} {ts : List Target} (h : listOfNode? n = some ts) :
    ∃ named, n.map? readDepth some some = some named ∧ ts.map name = named.map Prod.fst := by
  obtain ⟨named, hnamed, h⟩ := Option.bind_eq_some_iff.1 h
  exact ⟨named, hnamed, names_of_mapM h⟩

/-- Targets stand in the order of a configuration text: no two have one name, and those that headers
open stand in the order of their headers. -/
def InTextOrder (source : String) (ts : List Target) : Prop :=
  (ts.map name).Nodup ∧ ∃ lines, Toml.lines? source = some lines ∧
    (lines.filterMap (Toml.Line.opened? "targets")).Sublist (ts.map name)

theorem inTextOrder_of_listOfToml? {source : String} {ts : List Target}
    (h : listOfToml? source = some ts) : InTextOrder source ts := by
  obtain ⟨data, hdata, h⟩ := Option.bind_eq_some_iff.1 h
  obtain ⟨slots, hslots, h⟩ := Option.bind_eq_some_iff.1 h
  obtain ⟨es, hes, rfl⟩ := Option.map_eq_some_iff.1 hdata
  obtain rfl := Toml.assign?_memberNodes hslots
  obtain ⟨lines, hlines, hopened⟩ := Toml.opened_of_entries? hes "targets"
  unfold Toml.Opened at hopened
  split at hopened
  · rename_i hgroup
    rw [hgroup] at h
    obtain rfl := Option.some.inj h
    exact ⟨List.nodup_nil, lines, hlines, by rw [hopened]; exact List.nil_sublist _⟩
  · rename_i n hgroup
    rw [hgroup] at h
    obtain ⟨named, hnamed, hnames⟩ := names_of_listOfNode? h
    rw [InTextOrder, hnames]
    exact ⟨Node.nodup_keys_of_map? hnamed, lines, hlines, by rw [hopened]; exact List.nil_sublist _⟩
  · rename_i origin inner hgroup
    rw [hgroup] at h
    obtain ⟨named, hnamed, hnames⟩ := names_of_listOfNode? h
    rw [InTextOrder, hnames]
    refine ⟨Node.nodup_keys_of_map? hnamed, lines, hlines, ?_⟩
    rw [Toml.map?_memberNodes hnamed hopened.keys]
    exact hopened.order
  · rename_i closed last hgroup
    rw [hgroup] at h
    obtain ⟨named, hnamed, -⟩ := names_of_listOfNode? h
    cases hnamed

end Target
end ApiContract
