import ApiContract.Descriptor.Exchange
import ApiContract.Proofs.JsonTexts
import ApiContract.Proofs.Latest

/-!
# Values that are read back from their JSON

**Input:** something that is written as a JSON value and read from the data of a JSON text, within a
number of levels.

It is read back if its JSON is nested no deeper than the levels that are left, and it is not read at
all if its JSON is nested deeper (`ReadsBack`).  Lists, maps and records with known fields are read
back as soon as what they hold is.

**Results:**

* `ReadsBack.list`, `ReadsBack.map`: what holds of each item holds of the list, and of the map;
* `fields?_record`: a record that was written with its fields in their order gives what is in them;
* `readsBack_descriptor`: a descriptor is read back if no sum in it has two variants of one tag;
* `ReadsBack.text`: what is read back from the JSON value is read back from its compact text.
-/

namespace ApiContract

namespace Json.Value

/-! ## The data of a value -/

/-- The data of the text of a value. -/
def node (v : Value) : Node :=
  Node.ofTree v.tree

/-- How deeply lists and records are nested in a value. -/
def depth (v : Value) : Nat :=
  v.tree.depth

/-- The greatest of several depths. -/
def deepest (depths : List Nat) : Nat :=
  depths.foldr max 0

@[simp] theorem node_null : node .null = .null :=
  rfl

@[simp] theorem node_flag (b : Bool) : node (.flag b) = .flag b :=
  rfl

@[simp] theorem node_text (s : String) : node (.text s) = .text (some s) :=
  rfl

@[simp] theorem node_list (items : List Value) :
    node (.list items) = .list true (items.map node) := by
  have hitems : Node.ofItems (itemTrees items) = items.map node := by
    induction items with
    | nil => rfl
    | cons v vs ih =>
        rw [itemTrees, Node.ofItems, ih]
        rfl
  rw [node, tree, Node.ofTree, hitems]

@[simp] theorem node_record (members : List (String × Value)) :
    node (.record members) = .record (members.map fun m => (.text (some m.1), m.2.node)) := by
  have hmembers : Node.ofMembers (memberTrees members) =
      members.map fun m => (.text (some m.1), m.2.node) := by
    induction members with
    | nil => rfl
    | cons m ms ih =>
        obtain ⟨k, v⟩ := m
        rw [memberTrees, Node.ofMembers, ih]
        rfl
  rw [node, tree, Node.ofTree, hmembers]

@[simp] theorem depth_null : depth .null = 0 :=
  rfl

@[simp] theorem depth_flag (b : Bool) : depth (.flag b) = 0 :=
  rfl

@[simp] theorem depth_text (s : String) : depth (.text s) = 0 :=
  rfl

@[simp] theorem depth_list (items : List Value) :
    depth (.list items) = deepest (items.map depth) + 1 := by
  have hitems : itemDepth (itemTrees items) = deepest (items.map depth) := by
    induction items with
    | nil => rfl
    | cons v vs ih =>
        rw [itemTrees, itemDepth, ih]
        rfl
  rw [depth, tree, Tree.depth, hitems]

@[simp] theorem depth_record (members : List (String × Value)) :
    depth (.record members) = deepest (members.map fun m => m.2.depth) + 1 := by
  have hmembers : memberDepth (memberTrees members) =
      deepest (members.map fun m => m.2.depth) := by
    induction members with
    | nil => rfl
    | cons m ms ih =>
        obtain ⟨k, v⟩ := m
        rw [memberTrees, memberDepth, ih]
        rfl
  rw [depth, tree, Tree.depth, hmembers]

@[simp] theorem deepest_nil : deepest [] = 0 :=
  rfl

@[simp] theorem deepest_cons (d : Nat) (ds : List Nat) : deepest (d :: ds) = max d (deepest ds) :=
  rfl

theorem deepest_le_iff {ds : List Nat} {n : Nat} : deepest ds ≤ n ↔ ∀ d ∈ ds, d ≤ n := by
  induction ds with
  | nil => simp
  | cons d ds ih => simp [ih]

end Json.Value

open Json (Value Whole)

/-! ## Reading back -/

/-- Something is read back from its JSON within as many levels as its JSON has, and within fewer it
is not read. -/
def ReadsBack {α : Type} (read : Nat → Node → Option α) (write : α → Value) (a : α) : Prop :=
  ∀ room, read room (write a).node = if (write a).depth ≤ room then some a else none

section Collections

variable {α κ : Type} {read : Nat → Node → Option α} {write : α → Value}

theorem mapM_items {as : List α} (h : ∀ a ∈ as, ReadsBack read write a) (room : Nat) :
    (as.map fun a => (write a).node).mapM (read room) =
      if Value.deepest (as.map fun a => (write a).depth) ≤ room then some as else none := by
  induction as with
  | nil => simp
  | cons a as ih =>
      obtain ⟨ha, has⟩ := List.forall_mem_cons.1 h
      rw [List.map_cons, List.mapM_cons, ha room, ih has, List.map_cons, Value.deepest_cons]
      by_cases hroom : (write a).depth ≤ room
      · by_cases hrest : Value.deepest (as.map fun a => (write a).depth) ≤ room
        · simp [hroom, hrest]
        · simp [hroom, hrest]
      · simp [hroom]

/-- A list is read back if its items are. -/
theorem ReadsBack.list {as : List α} (h : ∀ a ∈ as, ReadsBack read write a) :
    ReadsBack (fun room => Node.list? room (read (room - 1)))
      (fun as => .list (as.map write)) as := by
  intro room
  cases room with
  | zero => simp [Node.list?]
  | succ room =>
      have hitems := mapM_items h room
      simp only [Node.list?, Value.node_list, Node.items?, Nat.succ_ne_zero, if_false,
        Option.bind_some, Nat.add_sub_cancel, List.map_map, Function.comp_def, Value.depth_list,
        Nat.add_le_add_iff_right, hitems]

theorem entries?_members [BEq κ] {key : String → Option κ} {name : κ → String} {es : List (κ × α)}
    (hkey : ∀ e ∈ es, key (name e.1) = some e.1) (h : ∀ e ∈ es, ReadsBack read write e.2)
    (room : Nat) (done : List (κ × α)) :
    Node.entries? key (read room) done
        (es.map fun e => (.text (some (name e.1)), (write e.2).node)) =
      if Value.deepest (es.map fun e => (write e.2).depth) ≤ room then some (Assoc.putAll done es)
      else none := by
  induction es generalizing done with
  | nil => rfl
  | cons e es ih =>
      obtain ⟨k, a⟩ := e
      obtain ⟨hk, hkeys⟩ := List.forall_mem_cons.1 hkey
      obtain ⟨ha, has⟩ := List.forall_mem_cons.1 h
      rw [List.map_cons, Node.entries?, Node.text?, Option.bind_some, hk, ha room, List.map_cons,
        Value.deepest_cons]
      by_cases hroom : (write a).depth ≤ room
      · simp only [hroom, if_true, ih hkeys has, Nat.max_le, true_and]
        rfl
      · simp [hroom]

/-- A map is read back if its values are, and no two of them have one name. -/
theorem ReadsBack.map [BEq κ] [LawfulBEq κ] (key : String → Option κ) (name : κ → String)
    {es : List (κ × α)} (hkey : ∀ e ∈ es, key (name e.1) = some e.1)
    (hn : (es.map (·.1)).Nodup) (h : ∀ e ∈ es, ReadsBack read write e.2) :
    ReadsBack (fun room => Node.map? room key (read (room - 1)))
      (fun es => .record (es.map fun e => (name e.1, write e.2))) es := by
  intro room
  cases room with
  | zero => simp [Node.map?]
  | succ room =>
      have hentries := entries?_members hkey h room []
      rw [Assoc.putAll_eq_iff.2 hn] at hentries
      simp only [Node.map?, Value.node_record, Node.members?, Nat.succ_ne_zero, if_false,
        Option.bind_some, Nat.add_sub_cancel, List.map_map, Function.comp_def, Value.depth_record,
        Nat.add_le_add_iff_right, hentries]

end Collections

/-! ## What is read -/

namespace Node

variable {α κ : Type} [BEq κ] [LawfulBEq κ] {key : String → Option κ} {read : Node → Option α}

/-- A record that is read has every name once. -/
theorem nodup_keys_of_entries? {done es : List (κ × α)} {members : List (Node × Node)}
    (hn : (done.map Prod.fst).Nodup) (h : entries? key read done members = some es) :
    (es.map Prod.fst).Nodup := by
  induction members generalizing done with
  | nil =>
      obtain rfl := Option.some.inj h
      exact hn
  | cons member rest ih =>
      rw [entries?] at h
      split at h
      · exact ih (Assoc.nodup_keys_put hn) h
      · cases h

theorem nodup_keys_of_map? {room : Nat} {n : Node} {es : List (κ × α)}
    (h : n.map? room key read = some es) : (es.map Prod.fst).Nodup := by
  unfold map? at h
  split at h
  · cases h
  · obtain ⟨members, -, hes⟩ := Option.bind_eq_some_iff.1 h
    exact nodup_keys_of_entries? (by simp) hes

end Node

/-! ## Records with known fields -/

section Fields

open Node (Field)

theorem placeOf?_field {before after : List Field} {f : Field}
    (hn : ∀ g ∈ before, g.name ≠ f.name) :
    Node.placeOf? (before ++ f :: after) (.text (some f.name)) = some (some before.length) := by
  have hnone : before.findIdx? (·.name == f.name) = none :=
    List.findIdx?_eq_none_iff.2 fun g hg => by simpa using hn g hg
  simp [Node.placeOf?, Node.text?, List.findIdx?_append, hnone, List.findIdx?_cons]

theorem assign?_members {after : List Field} (before : List Field) (done : List (Option Node))
    {members : List (String × Value)} (hlength : done.length = before.length)
    (hnames : members.map (·.1) = after.map (·.name))
    (hn : ((before ++ after).map (·.name)).Nodup) :
    Node.assign? (before ++ after) (done ++ after.map fun _ => none)
        (members.map fun m => (.text (some m.1), m.2.node)) =
      some (done ++ members.map fun m => some m.2.node) := by
  induction after generalizing before done members with
  | nil =>
      rw [List.map_nil, List.map_eq_nil_iff] at hnames
      subst hnames
      simp [Node.assign?]
  | cons f after ih =>
      cases members with
      | nil => cases hnames
      | cons m members =>
          obtain ⟨hname, hnames⟩ := List.cons.inj hnames
          have hfresh : ∀ g ∈ before, g.name ≠ f.name := by
            intro g hg
            rw [List.map_append, List.map_cons] at hn
            exact (List.nodup_append.1 hn).2.2 g.name (List.mem_map_of_mem hg) f.name
              List.mem_cons_self
          have hmore := ih (before ++ [f]) (done ++ [some m.2.node]) (by simp [hlength]) hnames
            (by simpa using hn)
          simp only [List.append_assoc, List.singleton_append] at hmore
          have hname : m.1 = f.name := hname
          simp only [List.map_cons]
          rw [hname, Node.assign?, placeOf?_field hfresh]
          simp only [← hlength, List.getElem?_append_right (Nat.le_refl _),
            Nat.sub_self, List.getElem?_cons_zero, List.set_append_right _ _ (Nat.le_refl _),
            List.set_cons_zero]
          exact hmore

/-- A record that was written with its fields in their order gives what is in them. -/
theorem fields?_record (fs : List Field) (members : List (String × Value)) (room : Nat)
    (hn : (fs.map (·.name)).Nodup) (hnames : members.map (·.1) = fs.map (·.name)) :
    Node.fields? (room + 1) fs (Value.node (.record members)) =
      some (members.map fun m => some m.2.node) := by
  have hassign := assign?_members [] [] rfl hnames hn
  simpa [Node.fields?, Node.members?] using hassign

@[simp] theorem fields?_zero (fs : List Field) (n : Node) : Node.fields? 0 fs n = none :=
  rfl

end Fields

/-! ## Descriptors -/

namespace Descriptor

/-- A descriptor in which no sum has two variants of one tag. -/
inductive Keyed : Descriptor → Prop
  | primitive (p : Primitive) : Keyed (.primitive p)
  | fileUpload : Keyed .fileUpload
  | file : Keyed .file
  | array (name : Option String) {e : Descriptor} (element : Keyed e) : Keyed (.array name e)
  | object (name : Option String) {ps : List Property} (properties : ∀ p ∈ ps, Keyed p.type) :
      Keyed (.object name ps)
  | oneOf (name : String) {vs : List (String × List Descriptor)} (tags : (vs.map (·.1)).Nodup)
      (members : ∀ v ∈ vs, ∀ t ∈ v.2, Keyed t) : Keyed (.oneOf name vs)
  | ref (pointer : String) : Keyed (.ref pointer)

end Descriptor

section Descriptors

theorem propertiesJson_eq (ps : List Property) : propertiesJson ps = ps.map Property.json := by
  induction ps with
  | nil => rfl
  | cons p ps ih =>
      rw [propertiesJson, ih]
      rfl

theorem membersJson_eq (ts : List Descriptor) : membersJson ts = ts.map Descriptor.json := by
  induction ts with
  | nil => rfl
  | cons t ts ih => rw [membersJson, ih, List.map_cons]

theorem variantsJson_eq (vs : List (String × List Descriptor)) :
    variantsJson vs = vs.map fun v => (v.1, .list (v.2.map Descriptor.json)) := by
  induction vs with
  | nil => rfl
  | cons v vs ih => rw [variantsJson, ih, membersJson_eq, List.map_cons]

theorem ifGiven?_ofText? (s : Option String) :
    Node.ifGiven? Node.text? (some (Value.ofText? s).node) = some s := by
  cases s <;> rfl

@[simp] theorem depth_ofText? (s : Option String) : (Value.ofText? s).depth = 0 := by
  cases s <;> rfl

@[simp] theorem given?_some {α : Type} (read : Node → Option α) (n : Node) :
    Node.given? read (some n) = read n :=
  rfl

theorem depth_property (p : Property) : (Property.json p).depth = p.type.json.depth + 1 := by
  simp [Property.json]

/-- A property is read back if its type is. -/
theorem ofNodeWith?_json {type? : Nat → Node → Option Descriptor} {p : Property}
    (h : ReadsBack type? Descriptor.json p.type) (room : Nat) :
    Property.ofNodeWith? (room + 1) (type? room) (Property.json p).node =
      if (Property.json p).depth ≤ room + 1 then some p else none := by
  have hfields := fields?_record [Node.field "name", Node.field "ty", Node.field "format",
    Node.field "required"] [("name", .text p.name), ("ty", p.type.json),
      ("format", .ofText? p.format), ("required", .flag p.required)] room (by decide) rfl
  rw [depth_property, Property.ofNodeWith?, Property.json, hfields]
  simp only [List.map_cons, List.map_nil, given?_some, h room, ifGiven?_ofText?,
    Option.bind_eq_bind, Option.bind_some, Option.pure_def, Nat.add_le_add_iff_right]
  split <;> rfl

/-- The data of a form that carries something. -/
theorem form?_form (name : String) (v : Value) (room : Nat) :
    Node.form? (room + 1) (Value.form name v).node = some (name, some v.node) :=
  rfl

@[simp] theorem depth_form (name : String) (v : Value) :
    (Value.form name v).depth = v.depth + 1 := by
  simp [Value.form]

theorem ofName?_name (p : Primitive) : Primitive.ofName? p.name = some p := by
  cases p <;> rfl

theorem readsBack_property {p : Property}
    (h : ReadsBack Descriptor.ofNode? Descriptor.json p.type) :
    ReadsBack Property.ofNode? Property.json p := by
  intro room
  cases room with
  | zero => simp [Property.ofNode?, Property.ofNodeWith?, depth_property]
  | succ room => exact ofNodeWith?_json h room

section Forms

variable (room : Nat) (name : Option String)

theorem ofNode?_ref (pointer : String) :
    Descriptor.ofNode? (room + 2) (Descriptor.ref pointer).json.node = some (.ref pointer) := by
  have hfields := fields?_record [Node.field "pointer"] [("pointer", .text pointer)] room
    (by decide) rfl
  rw [Descriptor.json, Descriptor.ofNode?, form?_form]
  simp only [hfields, List.map_cons, List.map_nil, Option.bind_eq_bind, Option.bind_some]
  rfl

theorem ofNode?_array (e : Descriptor) :
    Descriptor.ofNode? (room + 2) (Descriptor.array name e).json.node =
      (Descriptor.ofNode? room e.json.node).map (.array name) := by
  have hfields := fields?_record [Node.field "name", Node.field "element"]
    [("name", .ofText? name), ("element", e.json)] room (by decide) rfl
  rw [Descriptor.json, Descriptor.ofNode?, form?_form]
  simp only [hfields, List.map_cons, List.map_nil, given?_some, ifGiven?_ofText?,
    Option.bind_eq_bind,
    Option.bind_some, Option.pure_def, Option.map_eq_bind]
  rfl

theorem ofNode?_object (ps : List Property) :
    Descriptor.ofNode? (room + 2) (Descriptor.object name ps).json.node =
      (Node.list? room (Property.ofNode? (room - 1)) (Value.list (propertiesJson ps)).node).map
        (.object name) := by
  have hfields := fields?_record [Node.field "name", Node.field "properties"]
    [("name", .ofText? name), ("properties", .list (propertiesJson ps))] room (by decide) rfl
  rw [Descriptor.json, Descriptor.ofNode?, form?_form]
  simp only [hfields, List.map_cons, List.map_nil, given?_some, ifGiven?_ofText?,
    Option.bind_eq_bind,
    Option.bind_some, Option.pure_def, Option.map_eq_bind]
  rcases room with _ | _ | room <;> rfl

theorem ofNode?_oneOf (sum : String) (vs : List (String × List Descriptor)) :
    Descriptor.ofNode? (room + 2) (Descriptor.oneOf sum vs).json.node =
      (Node.map? room some (Node.list? (room - 1) (Descriptor.ofNode? (room - 1 - 1)))
        (Value.record (variantsJson vs)).node).map (.oneOf sum) := by
  have hfields := fields?_record [Node.field "name", Node.field "variants"]
    [("name", .text sum), ("variants", .record (variantsJson vs))] room (by decide) rfl
  rw [Descriptor.json, Descriptor.ofNode?, form?_form]
  simp only [hfields, List.map_cons, List.map_nil, given?_some, Option.bind_eq_bind,
    Option.bind_some, Option.pure_def, Option.map_eq_bind]
  rcases room with _ | _ | room <;> rfl

end Forms

/-- A descriptor is read back if no sum in it has two variants of one tag. -/
theorem readsBack_descriptor {t : Descriptor} (h : t.Keyed) :
    ReadsBack Descriptor.ofNode? Descriptor.json t := by
  induction h with
  | primitive p =>
      rintro (_ | room)
      · rfl
      · rw [Descriptor.json, depth_form, Value.depth_text, if_pos (by omega)]
        unfold Descriptor.ofNode?
        rw [form?_form]
        simp only [Value.node_text, Node.bareForm?, Node.form?, ofName?_name, Option.map_some]
  | fileUpload =>
      rintro (_ | room)
      · rfl
      · rw [Descriptor.json, Value.depth_text, if_pos (by omega), Value.node_text]
        unfold Descriptor.ofNode?
        simp only [Node.form?]
  | file =>
      rintro (_ | room)
      · rfl
      · rw [Descriptor.json, Value.depth_text, if_pos (by omega), Value.node_text]
        unfold Descriptor.ofNode?
        simp only [Node.form?]
  | ref pointer =>
      rintro (_ | _ | room)
      · rfl
      · rfl
      · rw [ofNode?_ref, if_pos]
        simp [Descriptor.json]
  | @array name e _ ih =>
      have hdepth : (Descriptor.array name e).json.depth = e.json.depth + 2 := by
        simp [Descriptor.json]
      rintro (_ | _ | room)
      · rfl
      · rw [hdepth, if_neg (by omega)]
        rfl
      · rw [ofNode?_array, ih room, hdepth]
        simp only [Nat.add_le_add_iff_right]
        split <;> rfl
  | @object name ps _ ih =>
      have hlist := ReadsBack.list fun p hp => readsBack_property (ih p hp)
      have hdepth : (Descriptor.object name ps).json.depth =
          (Value.list (ps.map Property.json)).depth + 2 := by
        simp [Descriptor.json, propertiesJson_eq]
      rintro (_ | _ | room)
      · rfl
      · rw [hdepth, if_neg (by omega)]
        rfl
      · have hread : Node.list? room (Property.ofNode? (room - 1))
            (Value.list (ps.map Property.json)).node = _ := hlist room
        rw [ofNode?_object, propertiesJson_eq, hread, hdepth]
        simp only [Nat.add_le_add_iff_right]
        split <;> rfl
  | @oneOf name vs tags _ ih =>
      have hmap := ReadsBack.map some id (fun _ _ => rfl) tags
        fun v hv => ReadsBack.list fun t ht => ih v hv t ht
      have hdepth : (Descriptor.oneOf name vs).json.depth =
          (Value.record (vs.map fun v => (v.1, .list (v.2.map Descriptor.json)))).depth + 2 := by
        simp [Descriptor.json, variantsJson_eq]
      rintro (_ | _ | room)
      · rfl
      · rw [hdepth, if_neg (by omega)]
        rfl
      · have hread : Node.map? room some (Node.list? (room - 1) (Descriptor.ofNode? (room - 1 - 1)))
            (Value.record (vs.map fun v => (v.1, .list (v.2.map Descriptor.json)))).node =
              if (Value.record (vs.map fun v => (v.1, .list (v.2.map Descriptor.json)))).depth ≤
                room
              then some vs else none := hmap room
        rw [ofNode?_oneOf, variantsJson_eq, hread, hdepth]
        simp only [Nat.add_le_add_iff_right]
        split <;> rfl

theorem whole_ofText? (s : Option String) : Whole (.ofText? s) := by
  cases s with
  | none => exact .null
  | some s => exact .text s

/-- A record without doubles in its members, one by one. -/
theorem whole_nil : ∀ m ∈ ([] : List (String × Value)), Whole m.2 := by
  simp

theorem whole_cons {k : String} {v : Value} {members : List (String × Value)} (hv : Whole v)
    (h : ∀ m ∈ members, Whole m.2) : ∀ m ∈ (k, v) :: members, Whole m.2 :=
  List.forall_mem_cons.2 ⟨hv, h⟩

theorem whole_form {name : String} {v : Value} (h : Whole v) : Whole (.form name v) :=
  .record (whole_cons h whole_nil)

theorem whole_property {p : Property} (h : Whole p.type.json) : Whole (Property.json p) :=
  .record (whole_cons (.text _) (whole_cons h (whole_cons (whole_ofText? _)
    (whole_cons (.flag _) whole_nil))))

/-- Descriptors are written without numbers. -/
theorem Descriptor.Keyed.whole {t : Descriptor} (h : t.Keyed) : Whole t.json := by
  induction h with
  | primitive p => exact whole_form (.text _)
  | fileUpload => exact .text _
  | file => exact .text _
  | ref pointer => exact whole_form (.record (whole_cons (.text _) whole_nil))
  | array name _ ih =>
      exact whole_form (.record (whole_cons (whole_ofText? name) (whole_cons ih whole_nil)))
  | @object name ps _ ih =>
      refine whole_form
        (.record (whole_cons (whole_ofText? name) (whole_cons (.list ?_) whole_nil)))
      rw [propertiesJson_eq]
      rintro _ hv
      obtain ⟨p, hp, rfl⟩ := List.mem_map.1 hv
      exact whole_property (ih p hp)
  | @oneOf name vs _ _ ih =>
      refine whole_form (.record (whole_cons (.text name) (whole_cons (.record ?_) whole_nil)))
      rw [variantsJson_eq]
      rintro _ hm
      obtain ⟨v, hv, rfl⟩ := List.mem_map.1 hm
      refine .list fun w hw => ?_
      obtain ⟨u, hu, rfl⟩ := List.mem_map.1 hw
      exact ih v hv u hu

end Descriptors

/-! ## Texts -/

/-- What a JSON text is read to. -/
def Json.read? {α : Type} (read : Nat → Node → Option α) (s : String) : Option α :=
  (Json.Tree.parse? s).bind fun t => read Json.depthLimit (Node.ofTree t)

/-- What is read back from a JSON value is read back from its compact text, which may be nested as
deeply as any text that is read. -/
theorem ReadsBack.text {α : Type} {read : Nat → Node → Option α} {write : α → Value} {a : α}
    (h : ReadsBack read write a) (hwhole : Whole (write a)) :
    Json.read? read (write a).compact =
      if (write a).depth ≤ Json.depthLimit then some a else none := by
  rw [Json.read?, Json.parse?_compact hwhole]
  exact h Json.depthLimit

end ApiContract
