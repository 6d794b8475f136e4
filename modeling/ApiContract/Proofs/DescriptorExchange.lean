import ApiContract.Proofs.OperationExchange

/-!
# Descriptors in texts

**Input:** descriptors, and the parts of operations that are built from them.

A map has one value for each key.  In a descriptor these are the variants of a sum (`Keyed`), and
only such descriptors are read from a text.  So the values that are read back from their own text
are exactly those that can be read at all and are nested no deeper than a text may be.

**Results:**

* `keyed_of_ofNode?`: a descriptor that is read has every tag of a sum once;
* `descriptor_exchange`: which descriptors, properties, parameters, request bodies and responses are
  read back from their texts.
-/

namespace ApiContract

open Json (Value Whole)

/-! ## What is read -/

namespace Node

section Reading

variable {α κ : Type} [BEq κ] [LawfulBEq κ] {key : String → Option κ} {read : Node → Option α}
  {room : Nat} {n : Node}

theorem exists_of_mapM {items : List Node} {as : List α} (h : items.mapM read = some as) :
    ∀ a ∈ as, ∃ m, read m = some a := by
  induction items generalizing as with
  | nil =>
      obtain rfl := Option.some.inj h
      exact nofun
  | cons m items ih =>
      rw [List.mapM_cons] at h
      obtain ⟨a, ha, h⟩ := Option.bind_eq_some_iff.1 h
      obtain ⟨rest, hrest, h⟩ := Option.bind_eq_some_iff.1 h
      obtain rfl := Option.some.inj h
      exact List.forall_mem_cons.2 ⟨⟨m, ha⟩, ih hrest⟩

theorem exists_of_list? {as : List α} (h : n.list? room read = some as) :
    ∀ a ∈ as, ∃ m, read m = some a := by
  unfold list? at h
  split at h
  · cases h
  · obtain ⟨items, -, hitems⟩ := Option.bind_eq_some_iff.1 h
    exact exists_of_mapM hitems

theorem exists_of_entries? {done es : List (κ × α)} {members : List (Node × Node)}
    (hdone : ∀ e ∈ done, ∃ m, read m = some e.2) (h : entries? key read done members = some es) :
    ∀ e ∈ es, ∃ m, read m = some e.2 := by
  induction members generalizing done with
  | nil =>
      obtain rfl := Option.some.inj h
      exact hdone
  | cons member rest ih =>
      rw [entries?] at h
      split at h
      · rename_i k v _ hv
        refine ih (fun e he => ?_) h
        rcases Assoc.mem_or_eq_of_mem_put he with he | rfl
        · exact hdone e he
        · exact ⟨_, hv⟩
      · cases h

theorem exists_of_map? {es : List (κ × α)} (h : n.map? room key read = some es) :
    ∀ e ∈ es, ∃ m, read m = some e.2 := by
  unfold map? at h
  split at h
  · cases h
  · obtain ⟨members, -, hes⟩ := Option.bind_eq_some_iff.1 h
    exact exists_of_entries? (by simp) hes

theorem exists_of_given? {slot : Option Node} {a : α} (h : given? read slot = some a) :
    ∃ m, read m = some a := by
  cases slot with
  | none => cases h
  | some m => exact ⟨m, h⟩

theorem exists_of_ifGiven? {slot : Option Node} {a : α} (h : ifGiven? read slot = some (some a)) :
    ∃ m, read m = some a := by
  cases slot with
  | none => cases h
  | some m =>
      rw [ifGiven?] at h
      unfold optional? at h
      split at h
      · cases h
      · split at h
        · cases h
        · obtain ⟨_, ha, he⟩ := Option.map_eq_some_iff.1 h
          exact ⟨_, Option.some.inj he ▸ ha⟩
      · split at h
        · cases h
        · cases h
      · obtain ⟨_, ha, he⟩ := Option.map_eq_some_iff.1 h
        exact ⟨_, Option.some.inj he ▸ ha⟩

end Reading

end Node

section Read

variable {room : Nat} {n : Node}

theorem type_of_ofNodeWith? {type? : Node → Option Descriptor} {p : Property}
    (h : Property.ofNodeWith? room type? n = some p) : ∃ m, type? m = some p.type := by
  unfold Property.ofNodeWith? at h
  obtain ⟨slots, -, h⟩ := Option.bind_eq_some_iff.1 h
  split at h
  · obtain ⟨name, -, h⟩ := Option.bind_eq_some_iff.1 h
    obtain ⟨t, ht, h⟩ := Option.bind_eq_some_iff.1 h
    obtain ⟨format, -, h⟩ := Option.bind_eq_some_iff.1 h
    obtain ⟨required, -, h⟩ := Option.bind_eq_some_iff.1 h
    obtain rfl := Option.some.inj h
    exact Node.exists_of_given? ht
  · cases h

/-- A descriptor that is read has every tag of a sum once. -/
theorem keyed_of_ofNode? {t : Descriptor} (h : Descriptor.ofNode? room n = some t) : t.Keyed := by
  induction room using Nat.strong_induction_on generalizing n t with
  | h room ih =>
  cases room with
  | zero =>
      unfold Descriptor.ofNode? at h
      split at h
      · obtain rfl := Option.some.inj h
        exact .fileUpload
      · obtain rfl := Option.some.inj h
        exact .file
      · cases h
  | succ room =>
      unfold Descriptor.ofNode? at h
      dsimp only at h
      split at h
      case h_1 | h_2 =>
        obtain rfl := Option.some.inj h
        exact .fileUpload
      case h_3 | h_4 =>
        obtain rfl := Option.some.inj h
        exact .file
      case h_5 =>
        obtain ⟨p, -, rfl⟩ := Option.map_eq_some_iff.1 h
        exact .primitive p
      case h_6 =>
        obtain ⟨slots, -, h⟩ := Option.bind_eq_some_iff.1 h
        split at h
        · obtain ⟨name, -, h⟩ := Option.bind_eq_some_iff.1 h
          obtain ⟨e, he, h⟩ := Option.bind_eq_some_iff.1 h
          obtain rfl := Option.some.inj h
          obtain ⟨m, hm⟩ := Node.exists_of_given? he
          refine .array name ?_
          split at hm
          · exact ih _ (by omega) hm
          · cases hm
        · cases h
      case h_7 =>
        obtain ⟨slots, -, h⟩ := Option.bind_eq_some_iff.1 h
        split at h
        · obtain ⟨name, -, h⟩ := Option.bind_eq_some_iff.1 h
          obtain ⟨ps, hps, h⟩ := Option.bind_eq_some_iff.1 h
          obtain rfl := Option.some.inj h
          obtain ⟨m, hm⟩ := Node.exists_of_given? hps
          refine .object name fun p hp => ?_
          obtain ⟨m, hm⟩ := Node.exists_of_list? hm p hp
          obtain ⟨m, hm⟩ := type_of_ofNodeWith? hm
          split at hm
          · exact ih _ (by omega) hm
          · cases hm
        · cases h
      case h_8 =>
        obtain ⟨slots, -, h⟩ := Option.bind_eq_some_iff.1 h
        split at h
        · obtain ⟨name, -, h⟩ := Option.bind_eq_some_iff.1 h
          obtain ⟨vs, hvs, h⟩ := Option.bind_eq_some_iff.1 h
          obtain rfl := Option.some.inj h
          obtain ⟨m, hm⟩ := Node.exists_of_given? hvs
          refine .oneOf name (Node.nodup_keys_of_map? hm) fun v hv t ht => ?_
          obtain ⟨m, hm⟩ := Node.exists_of_map? hm v hv
          obtain ⟨m, hm⟩ := Node.exists_of_list? hm t ht
          split at hm
          · exact ih _ (by omega) hm
          · cases hm
        · cases h
      case h_9 =>
        obtain ⟨slots, -, h⟩ := Option.bind_eq_some_iff.1 h
        split at h
        · obtain ⟨pointer, -, h⟩ := Option.bind_eq_some_iff.1 h
          obtain rfl := Option.some.inj h
          exact .ref pointer
        · cases h
      case h_10 => cases h

theorem keyed_of_property {p : Property} (h : Property.ofNode? room n = some p) : p.type.Keyed := by
  obtain ⟨m, hm⟩ := type_of_ofNodeWith? h
  exact keyed_of_ofNode? hm

theorem keyed_of_param {p : Param} (h : Param.ofNode? room n = some p) : p.property.type.Keyed := by
  obtain ⟨slots, -, h⟩ := Option.bind_eq_some_iff.1 h
  split at h
  · obtain ⟨name, -, h⟩ := Option.bind_eq_some_iff.1 h
    obtain ⟨location, -, h⟩ := Option.bind_eq_some_iff.1 h
    obtain ⟨property, hproperty, h⟩ := Option.bind_eq_some_iff.1 h
    obtain rfl := Option.some.inj h
    obtain ⟨m, hm⟩ := Node.exists_of_given? hproperty
    exact keyed_of_property hm
  · cases h

theorem keyed_of_content {b : RequestBody} (h : RequestBody.ofNode? room n = some b) : b.Keyed := by
  obtain ⟨slots, -, h⟩ := Option.bind_eq_some_iff.1 h
  split at h
  · obtain ⟨className, -, h⟩ := Option.bind_eq_some_iff.1 h
    obtain ⟨required, -, h⟩ := Option.bind_eq_some_iff.1 h
    obtain ⟨content, hcontent, h⟩ := Option.bind_eq_some_iff.1 h
    obtain rfl := Option.some.inj h
    obtain ⟨m, hm⟩ := Node.exists_of_given? hcontent
    refine ⟨Node.nodup_keys_of_map? hm, fun e he => ?_⟩
    obtain ⟨m, hm⟩ := Node.exists_of_map? hm e he
    exact keyed_of_ofNode? hm
  · cases h

theorem keyed_of_variant {v : Variant} (h : Variant.ofNode? room n = some v) :
    ∀ t ∈ v.members, t.Keyed := by
  have hheaders : ∀ {slot : Option Node} {headers : Option Descriptor},
      Node.ifGiven? (Descriptor.ofNode? (room - 2)) slot = some headers →
        ∀ t ∈ headers, t.Keyed := by
    rintro slot headers hslot t rfl
    obtain ⟨m, hm⟩ := Node.exists_of_ifGiven? hslot
    exact keyed_of_ofNode? hm
  unfold Variant.ofNode? at h
  dsimp only at h
  split at h
  · obtain ⟨slots, -, h⟩ := Option.bind_eq_some_iff.1 h
    split at h
    · obtain ⟨name, -, h⟩ := Option.bind_eq_some_iff.1 h
      obtain ⟨headers, hslot, h⟩ := Option.bind_eq_some_iff.1 h
      obtain rfl := Option.some.inj h
      simpa [Variant.members, Variant.body?] using hheaders hslot
    · cases h
  · obtain ⟨slots, -, h⟩ := Option.bind_eq_some_iff.1 h
    split at h
    · obtain ⟨name, -, h⟩ := Option.bind_eq_some_iff.1 h
      obtain ⟨headers, hslot, h⟩ := Option.bind_eq_some_iff.1 h
      obtain ⟨body, hbody, h⟩ := Option.bind_eq_some_iff.1 h
      obtain ⟨isFile, -, h⟩ := Option.bind_eq_some_iff.1 h
      obtain rfl := Option.some.inj h
      obtain ⟨m, hm⟩ := Node.exists_of_given? hbody
      simpa [Variant.members, Variant.body?, keyed_of_ofNode? hm] using hheaders hslot
    · cases h
  · cases h

end Read

/-! ## What is read back -/

/-- A value is read back from its text exactly if it is one that can be read, and nested no deeper
than texts may be; if it is one that can be read but is nested deeper, its text is refused. -/
structure Exchanged {α : Type} (read : Nat → Node → Option α) (write : α → Value) (Keyed : α → Prop)
    (a : α) : Prop where
  read_iff : Json.read? read (write a).compact = some a ↔
    Keyed a ∧ (write a).depth ≤ Json.depthLimit
  refused : Keyed a → Json.depthLimit < (write a).depth →
    Json.read? read (write a).compact = none

theorem exchanged {α : Type} {read : Nat → Node → Option α} {write : α → Value} {Keyed : α → Prop}
    {a : α} (hread : ∀ {room n}, read room n = some a → Keyed a)
    (hback : Keyed a → ReadsBack read write a) (hwhole : Keyed a → Whole (write a)) :
    Exchanged read write Keyed a where
  read_iff := by
    constructor
    · intro h
      obtain ⟨tree, -, hnode⟩ := Option.bind_eq_some_iff.1 h
      have hkeyed := hread hnode
      rw [(hback hkeyed).text (hwhole hkeyed)] at h
      refine ⟨hkeyed, ?_⟩
      by_contra hdepth
      rw [if_neg hdepth] at h
      cases h
    · rintro ⟨hkeyed, hdepth⟩
      rw [(hback hkeyed).text (hwhole hkeyed), if_pos hdepth]
  refused hkeyed hdepth := by
    rw [(hback hkeyed).text (hwhole hkeyed), if_neg (Nat.not_le.2 hdepth)]

/-- Descriptors, and what parts of operations consist of them, are read back from their texts. -/
theorem descriptor_exchange :
    (∀ t : Descriptor, Exchanged Descriptor.ofNode? Descriptor.json Descriptor.Keyed t) ∧
    (∀ p : Property, Exchanged Property.ofNode? Property.json (·.type.Keyed) p) ∧
    (∀ p : Param, Exchanged Param.ofNode? Param.json (·.property.type.Keyed) p) ∧
    (∀ b : RequestBody, Exchanged RequestBody.ofNode? RequestBody.json RequestBody.Keyed b) ∧
    ∀ v : Variant, Exchanged Variant.ofNode? Variant.json (fun v => ∀ t ∈ v.members, t.Keyed) v :=
  ⟨fun _ => exchanged keyed_of_ofNode? readsBack_descriptor Descriptor.Keyed.whole,
    fun _ => exchanged keyed_of_property (fun h => readsBack_property (readsBack_descriptor h))
      fun h => whole_property h.whole,
    fun _ => exchanged keyed_of_param readsBack_param whole_param,
    fun _ => exchanged keyed_of_content readsBack_requestBody whole_requestBody,
    fun _ => exchanged keyed_of_variant readsBack_variant whole_variant⟩

/-- A sum of a list of records and of a scalar, with names beyond ASCII and a name to be escaped. -/
def shapeSum : Descriptor :=
  .oneOf "Größe" [("liste", [.array none (.object (some "Pünkt\n")
      [⟨"x\"y", .ref "#/components/schemas/名", some "int32", false⟩])]),
    ("zahl", [.primitive .int64, .fileUpload])]

theorem descriptor_exchange_shape :
    Json.read? Descriptor.ofNode? shapeSum.json.compact = some shapeSum := by
  have hpoint : (Descriptor.array none (.object (some "Pünkt\n")
      [⟨"x\"y", .ref "#/components/schemas/名", some "int32", false⟩])).Keyed :=
    .array _ (.object _ (by simpa using .ref _))
  have hkeyed : shapeSum.Keyed := by
    refine .oneOf _ (by decide) ?_
    simp only [List.forall_mem_cons, List.not_mem_nil, false_implies, implies_true, and_true]
    exact ⟨hpoint, .primitive _, .fileUpload⟩
  exact (descriptor_exchange.1 shapeSum).read_iff.2 ⟨hkeyed, by decide⟩

end ApiContract
