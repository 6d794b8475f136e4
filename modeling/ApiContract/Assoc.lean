/-!
# Values by key, in order

A list of pairs that holds at most one value for a key, in the order in which the keys were met.

**Results:** `put` replaces the value of a key where it stands, or adds the key at the end, and so
changes the value of that key only; `drop` leaves a key out and keeps the value of every other.
-/

namespace ApiContract

/-- Values by key, in the order in which the keys were met. -/
abbrev Assoc (κ α : Type) := List (κ × α)

namespace Assoc

variable {κ α : Type}

/-- Puts a value to a key: in place of the earlier value of that key, else at the end. -/
def put [BEq κ] (k : κ) (v : α) : Assoc κ α → Assoc κ α
  | [] => [(k, v)]
  | (j, w) :: rest => if j == k then (j, v) :: rest else (j, w) :: put k v rest

/-- Adds a value to a key that has none, at the end. -/
def add [BEq κ] (k : κ) (v : α) (a : Assoc κ α) : Assoc κ α :=
  if a.any (·.1 == k) then a else a ++ [(k, v)]

/-- The value of a key. -/
def get? [BEq κ] (a : Assoc κ α) (k : κ) : Option α :=
  a.lookup k

/-- Leaves a key out. -/
def drop [BEq κ] (k : κ) (a : Assoc κ α) : Assoc κ α :=
  a.filter fun e => !(e.1 == k)

/-- After a value is put to a key, the key has it. -/
theorem get?_put_self [BEq κ] [LawfulBEq κ] (k : κ) (v : α) (a : Assoc κ α) :
    (a.put k v).get? k = some v := by
  induction a with
  | nil => simp [put, get?]
  | cons e rest ih =>
    obtain ⟨j, w⟩ := e
    by_cases h : j = k
    · subst h
      simp [put, get?]
    · have hk : (k == j) = false := by simpa using fun e => h e.symm
      simpa [put, get?, h, hk, List.lookup_cons] using ih

/-- A value put to a key changes no other key. -/
theorem get?_put_of_ne [BEq κ] [LawfulBEq κ] {k l : κ} (h : l ≠ k) (v : α) (a : Assoc κ α) :
    (a.put k v).get? l = a.get? l := by
  induction a with
  | nil => simp [put, get?, h]
  | cons e rest ih =>
    obtain ⟨j, w⟩ := e
    by_cases hj : j = k
    · subst hj
      have hl : (l == j) = false := by simpa using h
      simp [put, get?, hl, List.lookup_cons]
    · by_cases hl : l = j
      · subst hl
        simp [put, get?, hj]
      · have hl' : (l == j) = false := by simpa using hl
        simpa [put, get?, hj, hl', List.lookup_cons] using ih

/-- A value that is added to a key stays behind one that it had. -/
theorem get?_add [BEq κ] [LawfulBEq κ] (k l : κ) (v : α) (a : Assoc κ α) :
    (a.add k v).get? l = (a.get? l).or (get? [(k, v)] l) := by
  unfold add
  split
  · rename_i hk
    by_cases hl : l = k
    · subst hl
      have hsome : (a.lookup l).isSome := by
        rw [Option.isSome_iff_ne_none, ne_eq, List.lookup_eq_none_iff]
        intro hnone
        obtain ⟨e, he, hek⟩ := List.any_eq_true.1 hk
        have hne := hnone e he
        rw [eq_of_beq hek] at hne
        simp at hne
      obtain ⟨w, hw⟩ := Option.isSome_iff_exists.1 hsome
      rw [get?, hw, Option.some_or]
    · have hb : (l == k) = false := by simpa using hl
      simp [get?, List.lookup_cons, hb]
  · exact List.lookup_append

/-- A key that is left out has no value. -/
theorem get?_drop_self [BEq κ] [LawfulBEq κ] (k : κ) (a : Assoc κ α) :
    (a.drop k).get? k = none := by
  induction a with
  | nil => rfl
  | cons e rest ih =>
    obtain ⟨j, w⟩ := e
    by_cases h : j = k
    · simpa [drop, get?, h] using ih
    · have hk : (k == j) = false := by simpa using fun e => h e.symm
      simpa [drop, get?, h, hk, List.lookup_cons] using ih

/-- Leaving a key out changes no other key. -/
theorem get?_drop_of_ne [BEq κ] [LawfulBEq κ] {k l : κ} (h : l ≠ k) (a : Assoc κ α) :
    (a.drop k).get? l = a.get? l := by
  induction a with
  | nil => rfl
  | cons e rest ih =>
    obtain ⟨j, w⟩ := e
    by_cases hj : j = k
    · subst hj
      have hl : (l == j) = false := by simpa using h
      simpa [drop, get?, hl, List.lookup_cons] using ih
    · by_cases hl : l = j
      · subst hl
        simp [drop, get?, hj]
      · have hl' : (l == j) = false := by simpa using hl
        simpa [drop, get?, hj, hl', List.lookup_cons] using ih

/-- A value added behind other entries is found if those have none. -/
theorem get?_append [BEq κ] (a b : Assoc κ α) (k : κ) :
    Assoc.get? (a ++ b) k = (a.get? k).or (b.get? k) :=
  List.lookup_append

end Assoc
end ApiContract
