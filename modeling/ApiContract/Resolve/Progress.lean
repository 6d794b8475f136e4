import ApiContract.Document.Basic
import ApiContract.Naming
import ApiContract.RefTable
import ApiContract.Resolve.Error

/-!
# The state of resolution

While a document is resolved, the table of named schemas grows and warnings are collected.  The
pointers that are being resolved are not part of the state: they are the path from the operation to
the schema at hand, and are handed down.

**Results:** `unentered`, the number of named schemas that are not on the path, decreases whenever a
pointer is entered (`unentered_cons_lt`).  With the size of the schema it is the measure by which
resolution ends.
-/

namespace ApiContract
namespace Resolve

/-- The state of resolution. -/
structure Progress where
  /-- Schemas resolved so far. -/
  table : RefTable := .empty
  /-- Pointers in the order in which their schemas were first expanded. -/
  entered : List String := []
  /-- Warnings so far. -/
  warnings : List Warning := []
deriving Inhabited

/-- A step of resolution. -/
abbrev Resolving := StateT Progress (Except ResolveError)

/-- Fails. -/
def refuse {α : Type} (e : ResolveError) : Resolving α :=
  throw e

/-- The value, or a failure. -/
def orRefuse {α : Type} (e : ResolveError) : Option α → Resolving α
  | some a => pure a
  | none => refuse e

/-- Adds a warning. -/
def warn (w : Warning) : Resolving Unit :=
  modify fun p => { p with warnings := p.warnings ++ [w] }

/-- The type name of a text, or a failure that says where the text comes from. -/
def typeName (raw context : String) : Resolving String :=
  orRefuse (.invalidName raw context) (Naming.typeName? raw)

/-! ## The measure -/

/-- Named schemas that are not on a path. -/
def unenteredKeys (d : Document) (path : List String) : List String :=
  (d.components.schemas.map fun e => Document.schemaRoot ++ e.1).filter fun k => !path.contains k

/-- Number of named schemas that are not on a path. -/
def unentered (d : Document) (path : List String) : Nat :=
  (unenteredKeys d path).length

/-- Removing an element that occurs makes a filtered list shorter. -/
theorem length_filter_lt {α : Type} {p q : α → Bool} {xs : List α} {x : α} (hx : x ∈ xs)
    (hq : q x = true) (hp : p x = false) (hpq : ∀ y, p y = true → q y = true) :
    (xs.filter p).length < (xs.filter q).length := by
  induction xs with
  | nil => simp at hx
  | cons y ys ih =>
    have hle : (ys.filter p).length ≤ (ys.filter q).length := by
      have : ys.filter p = (ys.filter q).filter p := by
        rw [List.filter_filter]
        congr 1
        funext z
        by_cases hz : p z = true
        · simp [hz, hpq z hz]
        · simp [Bool.not_eq_true] at hz
          simp [hz]
      rw [this]
      exact List.length_filter_le _ _
    rcases List.mem_cons.1 hx with rfl | hx
    · simp [hq, hp]
      omega
    · have := ih hx
      by_cases hy : p y = true
      · simp [hy, hpq y hy]
        omega
      · by_cases hqy : q y = true <;> simp [hy, hqy] <;> omega

/-- What follows a root, with the root in front again. -/
theorem append_of_after? {root s name : String} (h : Document.after? root s = some name) :
    root ++ name = s := by
  unfold Document.after? at h
  split at h
  · rename_i hp
    obtain ⟨t, ht⟩ := List.isPrefixOf_iff_prefix.1 hp
    have hn : name = String.ofList (s.toList.drop root.length) := by simpa using h.symm
    have hd : s.toList.drop root.length = t := by
      rw [← ht, ← String.length_toList, List.drop_left]
    apply String.toList_inj.1
    rw [hn, hd, String.toList_append, String.toList_ofList, ht]
  · simp at h

/-- A key that has a value occurs among the keys. -/
theorem mem_keys_of_lookup {α β : Type} [BEq α] [LawfulBEq α] {xs : List (α × β)} {a : α} {b : β}
    (h : xs.lookup a = some b) : a ∈ xs.map Prod.fst := by
  induction xs with
  | nil => simp at h
  | cons x xs ih =>
    obtain ⟨k, v⟩ := x
    by_cases hk : a = k
    · simp [hk]
    · have hb : (a == k) = false := by simpa using hk
      rw [List.lookup_cons, hb] at h
      simpa [hk] using ih h

/-- A pointer to a schema is one of the document's keys. -/
theorem mem_keys_of_schema? {d : Document} {pointer : String} {s : Document.Schema}
    (h : d.schema? pointer = some s) :
    pointer ∈ d.components.schemas.map fun e => Document.schemaRoot ++ e.1 := by
  unfold Document.schema? at h
  obtain ⟨name, hname, hs⟩ := Option.bind_eq_some_iff.1 h
  obtain ⟨e, he, rfl⟩ := List.mem_map.1 (mem_keys_of_lookup hs)
  exact List.mem_map.2 ⟨e, he, append_of_after? hname⟩

/-- Entering a pointer that is not on the path leaves fewer schemas to enter. -/
theorem unentered_cons_lt {d : Document} {path : List String} {pointer : String}
    {s : Document.Schema} (h : d.schema? pointer = some s) (hp : path.contains pointer = false) :
    unentered d (pointer :: path) < unentered d path := by
  unfold unentered unenteredKeys
  apply length_filter_lt (mem_keys_of_schema? h)
  · simpa using hp
  · simp
  · intro y hy
    simp at hy
    simp [hy.2]

end Resolve
end ApiContract
