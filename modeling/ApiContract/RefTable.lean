import ApiContract.Descriptor

/-!
# The table of named schemas

Descriptors by pointer, in the order in which they were inserted, and the pointers that were met
again while they were being resolved.

**Results:** an entry is never replaced (`insert`); `resolve?` follows pointers until a descriptor
of another kind is found, and gives up after as many steps as there are entries, since a longer
chain must go in circles.
-/

namespace ApiContract

/-- Descriptors by pointer. -/
structure RefTable where
  /-- Entries in the order of insertion. -/
  entries : List (String × Descriptor) := []
  /-- Pointers marked as recursive. -/
  recursive : List String := []
  /-- Every pointer has one entry. -/
  nodup_keys : (entries.map Prod.fst).Nodup := by simp

namespace RefTable

/-- The table without entries. -/
def empty : RefTable := {}

instance : Inhabited RefTable := ⟨empty⟩

/-- The pointers that have an entry. -/
def keys (t : RefTable) : List String :=
  t.entries.map Prod.fst

/-- The entry of a pointer. -/
def get? (t : RefTable) (pointer : String) : Option Descriptor :=
  t.entries.lookup pointer

/-- Whether a pointer has an entry. -/
def contains (t : RefTable) (pointer : String) : Bool :=
  t.keys.contains pointer

/-- Adds an entry at the end, unless the pointer has one. -/
def insert (t : RefTable) (pointer : String) (d : Descriptor) : RefTable :=
  if h : t.contains pointer then t
  else
    { t with
      entries := t.entries ++ [(pointer, d)]
      nodup_keys := by
        have hk : pointer ∉ t.entries.map Prod.fst := by
          simpa [contains, keys] using h
        rw [List.map_append, List.nodup_append]
        refine ⟨t.nodup_keys, by simp, ?_⟩
        intro a ha b hb
        simp at hb
        subst hb
        exact fun e => hk (e ▸ ha) }

/-- Number of entries. -/
def size (t : RefTable) : Nat :=
  t.entries.length

/-- Follows at most `steps` pointers. -/
def follow? (t : RefTable) : Nat → Descriptor → Option Descriptor
  | 0, .ref _ => none
  | steps + 1, .ref pointer => (t.get? pointer).bind (t.follow? steps)
  | _, d => some d

/-- The descriptor that is no pointer at the end of a chain of pointers. -/
def resolve? (t : RefTable) (d : Descriptor) : Option Descriptor :=
  t.follow? t.size d

/-- Marks a pointer as recursive. -/
def mark (t : RefTable) (pointer : String) : RefTable :=
  if t.recursive.contains pointer then t else { t with recursive := pointer :: t.recursive }

/-- Whether a pointer is marked as recursive. -/
def isRecursive (t : RefTable) (pointer : String) : Bool :=
  t.recursive.contains pointer

end RefTable
end ApiContract
