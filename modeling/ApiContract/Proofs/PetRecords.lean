import ApiContract.PetStore.Server
import ApiContract.Proofs.ContentTypes
import ApiContract.Proofs.Digits
import ApiContract.Proofs.Emission

/-!
# Pets in their order

**Input:** a store of pets, and texts that name pets.

The pets of a store stand in ascending order of their ids, and their ids are numbers of sixty-four
bits (`Kept`).  So no two pets have one id, and every pet can be named by its id in decimal digits.

**Results:**

* `create_eq_ok_iff`: when a new pet is taken;
* `Kept.create`, `Kept.remove`: the order outlasts what is done to the pets;
* `readLong?_toString`, `decoded?_toString`: the decimal digits of an id name it.
-/

namespace ApiContract

namespace Scalar

/-- The decimal digits of a number of sixty-four bits name it. -/
theorem readLong?_toString {n : Int} (h : Decimal.fitsSigned 64 n = true) :
    readLong? (toString n) = some n := by
  rw [readLong?, Decimal.signedBits?_toString h]

theorem fits_of_readLong? {s : String} {n : Int} (h : readLong? s = some n) :
    Decimal.fitsSigned 64 n = true :=
  (Option.filter_eq_some_iff.1 h).2

end Scalar

/-! ## Texts without encoding -/

namespace Text.Percent

/-- Bytes without a percent sign stand for themselves. -/
theorem decodeOnto_of_plain {s : List UInt8} (h : ∀ b ∈ s, b ≠ 37) (done : List UInt8) :
    decodeOnto id done s = done.reverse ++ s := by
  induction s generalizing done with
  | nil => simp [decodeOnto]
  | cons b rest ih =>
      obtain ⟨hb, hrest⟩ := List.forall_mem_cons.1 h
      rw [decodeOnto]
      · rw [ih hrest]
        simp
      · rintro _ _ _ rfl
        exact absurd rfl hb

end Text.Percent

theorem slash_not_mem_toString (n : Int) : '/' ∉ (toString n).toList := by
  intro h
  rcases Decimal.char_of_toString h with hdigit | hminus
  · cases hdigit
  · cases hminus

namespace PetStore

/-- A number in a path is not encoded. -/
theorem decoded?_toString (n : Int) : Server.decoded? (toString n).toList = some (toString n) := by
  have hlt : ∀ c ∈ (toString n).toList, c.toNat < 128 ∧ c ≠ '%' := by
    intro c hc
    rcases Decimal.char_of_toString hc with hdigit | rfl
    · have hrange := Decimal.toNat_of_isDigit hdigit
      refine ⟨by omega, ?_⟩
      rintro rfl
      cases hdigit
    · decide
  have hbytes : Bytes.ofChars (toString n).toList =
      (toString n).toList.map fun c => c.toNat.toUInt8 := by
    rw [Bytes.ofChars, String.ofList_toList]
    exact toList_toUTF8 fun c hc => (hlt c hc).1
  have hplain : ∀ b ∈ Bytes.ofChars (toString n).toList, b ≠ 37 := by
    rw [hbytes]
    intro b hb
    obtain ⟨c, hc, rfl⟩ := List.mem_map.1 hb
    intro heq
    have hnat : c.toNat.toUInt8.toNat = c.toNat :=
      UInt8.toNat_ofNat_of_lt' (Nat.lt_trans (hlt c hc).1 (by decide))
    rw [heq] at hnat
    refine (hlt c hc).2 (Char.toNat_inj.1 ?_)
    exact hnat.symm
  have hdecode : Text.Percent.decode (Bytes.ofChars (toString n).toList) =
      Bytes.ofChars (toString n).toList := Text.Percent.decodeOnto_of_plain hplain []
  rw [Server.decoded?, hdecode, Bytes.text?, Bytes.ofChars, Bytes.ofList_toList,
    String.ofList_toList]
  exact Text.Utf8.fromUTF8?_toUTF8 _

/-! ## Pets in ascending order -/

namespace Store

/-- The pets stand in ascending order of their ids, which are numbers of sixty-four bits. -/
structure Kept (s : Store) : Prop where
  ascending : s.pets.Pairwise fun p q => p.id < q.id
  fits : ∀ p ∈ s.pets, Decimal.fitsSigned 64 p.id = true

section Pets

variable {s s' : Store} {p q : Pet} {id : Int}

theorem mem_insertPet {ps : List Pet} : q ∈ insertPet p ps ↔ q = p ∨ q ∈ ps := by
  induction ps with
  | nil => simp [insertPet]
  | cons r rs ih =>
      rw [insertPet]
      split
      · simp
      · simp only [List.mem_cons, ih]
        tauto

/-- A pet goes in its place. -/
theorem pairwise_insertPet {ps : List Pet} (h : ps.Pairwise fun p q => p.id < q.id)
    (hp : ∀ q ∈ ps, q.id ≠ p.id) : (insertPet p ps).Pairwise fun p q => p.id < q.id := by
  induction ps with
  | nil => simp [insertPet]
  | cons r rs ih =>
      obtain ⟨hr, hrs⟩ := List.pairwise_cons.1 h
      obtain ⟨hne, hothers⟩ := List.forall_mem_cons.1 hp
      rw [insertPet]
      split
      · rename_i hlt
        refine List.pairwise_cons.2 ⟨fun q hq => ?_, h⟩
        rcases List.mem_cons.1 hq with rfl | hq
        · exact hlt
        · exact lt_trans hlt (hr q hq)
      · rename_i hge
        refine List.pairwise_cons.2 ⟨fun q hq => ?_, ih hrs hothers⟩
        rcases mem_insertPet.1 hq with rfl | hq
        · omega
        · exact hr q hq

theorem pet?_eq_none_iff : s.pet? id = none ↔ ∀ p ∈ s.pets, p.id ≠ id := by
  simp [pet?]

theorem of_pet?_eq_some (h : s.pet? id = some p) : p ∈ s.pets ∧ p.id = id :=
  ⟨List.mem_of_find?_eq_some h, by simpa using List.find?_some h⟩

/-- The pet with an id is the only one that has it. -/
theorem Kept.pet?_eq_some_iff (h : s.Kept) : s.pet? id = some p ↔ p ∈ s.pets ∧ p.id = id := by
  constructor
  · exact of_pet?_eq_some
  · rintro ⟨hp, rfl⟩
    cases hq : s.pet? p.id with
    | none => exact absurd rfl (pet?_eq_none_iff.1 hq p hp)
    | some q =>
        obtain ⟨hmem, hid⟩ := of_pet?_eq_some hq
        have hnodup : (s.pets.map (·.id)).Nodup :=
          (List.pairwise_map.2 h.ascending).imp fun hlt => ne_of_lt hlt
        exact congrArg some (List.inj_on_of_nodup_map hnodup hmem hp hid)

theorem kept_initial : initial.Kept where
  ascending := by decide
  fits := by decide

/-- A new pet is taken if it has a name and an id of its own. -/
theorem create_eq_ok_iff : s.create p = .ok s' ↔ Text.trim p.name.toList ≠ [] ∧
    s.pet? p.id = none ∧ s' = { s with pets := insertPet p s.pets } := by
  unfold create
  split
  · rename_i hblank
    simp [List.isEmpty_iff.1 hblank]
  · rename_i hblank
    split
    · rename_i hsome
      obtain ⟨q, hq⟩ := Option.isSome_iff_exists.1 hsome
      simp [hq]
    · rename_i hnone
      have hname : Text.trim p.name.toList ≠ [] := fun h => hblank (List.isEmpty_iff.2 h)
      have hpet : s.pet? p.id = none := by simpa using hnone
      simp [hname, hpet, eq_comm]

theorem Kept.create (h : s.Kept) (hp : Decimal.fitsSigned 64 p.id = true)
    (hcreate : s.create p = .ok s') : s'.Kept := by
  obtain ⟨-, hnone, rfl⟩ := create_eq_ok_iff.1 hcreate
  refine ⟨pairwise_insertPet h.ascending (pet?_eq_none_iff.1 hnone), fun q hq => ?_⟩
  rcases mem_insertPet.1 hq with rfl | hq
  · exact hp
  · exact h.fits q hq

theorem Kept.remove (h : s.Kept) (id : Int) :
    ({ s with pets := s.pets.filter (·.id ≠ id) } : Store).Kept where
  ascending := h.ascending.filter _
  fits := fun p hp => h.fits p (List.mem_of_mem_filter hp)

end Pets

end Store

/-! ## Pets in bodies -/

theorem fits_of_ofNode? {room : Nat} {n : Node} {p : Pet} (h : Pet.ofNode? room n = some p) :
    Decimal.fitsSigned 64 p.id = true := by
  obtain ⟨slots, -, h⟩ := Option.bind_eq_some_iff.1 h
  split at h
  · obtain ⟨id, hid, h⟩ := Option.bind_eq_some_iff.1 h
    obtain ⟨name, -, h⟩ := Option.bind_eq_some_iff.1 h
    obtain ⟨tag, -, h⟩ := Option.bind_eq_some_iff.1 h
    obtain rfl := Option.some.inj h
    unfold Node.given? at hid
    split at hid
    · cases hid
    · unfold Node.signed? at hid
      split at hid
      · split at hid
        · rename_i hfits
          obtain rfl := Option.some.inj hid
          exact hfits
        · cases hid
      · cases hid
  · cases h

theorem fits_of_ofForm {f : Form} {p : Pet} (h : Pet.ofForm f = .ok p) :
    Decimal.fitsSigned 64 p.id = true := by
  unfold Pet.ofForm at h
  obtain ⟨id, hid, h⟩ := Emit.bind_eq_ok.1 h
  obtain ⟨name, -, h⟩ := Emit.bind_eq_ok.1 h
  obtain ⟨tag, -, h⟩ := Emit.bind_eq_ok.1 h
  obtain rfl := Except.ok.inj h
  unfold Form.required Form.optional Form.readOptional at hid
  split at hid
  · cases hid
  · split at hid
    · cases hid
    · split at hid
      · rename_i hread
        obtain rfl := Except.ok.inj hid
        exact Scalar.fits_of_readLong? hread
      · cases hid

/-- The id of a pet in a body is a number of sixty-four bits. -/
theorem fits_of_readPet {r : Request} {p : Pet} (h : readPet r = .ok p) :
    Decimal.fitsSigned 64 p.id = true := by
  have hbody : ∀ {read : Except BodyError Pet}, bodyOf read = .ok p → read = .ok p := by
    intro read hread
    cases read with
    | error e => cases hread
    | ok q => exact congrArg Except.ok (Except.ok.inj hread)
  unfold readPet at h
  split at h
  · have hjson := hbody h
    unfold Body.json at hjson
    obtain ⟨b, -, hjson⟩ := Emit.bind_eq_ok.1 hjson
    dsimp only at hjson
    split at hjson
    · rename_i q hq
      obtain rfl := Except.ok.inj hjson
      obtain ⟨tree, -, hq⟩ := Option.bind_eq_some_iff.1 hq
      exact fits_of_ofNode? hq
    · cases hjson
  · obtain ⟨f, -, hform⟩ := Emit.bind_eq_ok.1 (hbody h)
    exact fits_of_ofForm hform
  · cases hbody h
  · cases h

end PetStore
end ApiContract
