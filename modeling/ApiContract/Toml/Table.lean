import ApiContract.Assoc
import ApiContract.Toml.Scalar

/-!
# Tables of a TOML text

A table is made by a header, by the dots of a key, or because a longer header mentions it.  Only
what is still open may be added to, and no key is given twice.

**Results:** `Entries.insert?`, `Entries.header?` and `Entries.listHeader?` do what one line says,
or fail where the line repeats or reopens something.
-/

namespace ApiContract
namespace Toml

/-- How a table came to be. -/
inductive Origin
  /-- By a header of its own; the outermost table as well. -/
  | header
  /-- A longer header mentions it. -/
  | mentioned
  /-- The dots of a key make it. -/
  | dotted
deriving DecidableEq, Inhabited

/-- What a key leads to. -/
inductive Item
  /-- A value; nothing can be added to it. -/
  | value (n : Node)
  | table (origin : Origin) (entries : List (String × Item))
  /-- A list of tables: those that are closed, and the one that is still open. -/
  | tables (closed : List Node) (last : List (String × Item))
deriving Inhabited

/-- Items by key. -/
abbrev Entries := Assoc String Item

mutual

/-- The data of an item. -/
def Item.node : Item → Node
  | .value n => n
  | .table _ es => .record (memberNodes es)
  | .tables closed last => .list true (closed ++ [.record (memberNodes last)])

/-- The data of entries. -/
def memberNodes : List (String × Item) → List (Node × Node)
  | [] => []
  | (k, i) :: es => (.text (some k), i.node) :: memberNodes es

end

namespace Entries

/-- Changes the table at a path, and makes the tables on the way that are missing.  With `dotted`
the path is a key, which leads through open tables only. -/
def at? (dotted : Bool) (change : Origin → Entries → Option Entries) :
    List String → Origin → Entries → Option Entries
  | [], origin, es => change origin es
  | key :: path, _, es =>
    let made := if dotted then Origin.dotted else .mentioned
    match es.get? key with
    | none => (at? dotted change path made []).map fun inner => es.put key (.table made inner)
    | some (.value _) => none
    | some (.table origin inner) =>
      if dotted && origin == .header then none
      else (at? dotted change path origin inner).map fun inner => es.put key (.table origin inner)
    | some (.tables closed last) =>
      (at? dotted change path .header last).map fun last => es.put key (.tables closed last)

/-- Adds a value under a key with dots.  The table that takes it must be the one the line stands in,
or made by dots. -/
def insert? (keys : List String) (v : Item) (es : Entries) : Option Entries :=
  match keys.getLast? with
  | none => none
  | some key =>
    let path := keys.dropLast
    let change (origin : Origin) (es : Entries) : Option Entries :=
      if (origin == .dotted) == path.isEmpty then none
      else if (es.get? key).isSome then none
      else some (es.put key v)
    at? true change path .header es

/-- Changes what the last key leads to, in the table that the keys before it lead to. -/
def atLast? (change : String → Entries → Option Entries) (keys : List String) (es : Entries) :
    Option Entries :=
  match keys.getLast? with
  | none => none
  | some key => at? false (fun _ es => change key es) keys.dropLast .header es

/-- Opens a table that no header or key has made before. -/
def openTable? (key : String) (es : Entries) : Option Entries :=
  match es.get? key with
  | none => some (es.put key (.table .header []))
  | some (.table .mentioned inner) => some (es.drop key ++ [(key, .table .header inner)])
  | some _ => none

/-- Opens one more table of a list. -/
def openNext? (key : String) (es : Entries) : Option Entries :=
  match es.get? key with
  | none => some (es.put key (.tables [] []))
  | some (.tables closed last) =>
    some (es.put key (.tables (closed ++ [.record (memberNodes last)]) []))
  | some _ => none

/-- Does what a header says. -/
def header? (keys : List String) (es : Entries) : Option Entries :=
  atLast? openTable? keys es

/-- Does what a header in double brackets says. -/
def listHeader? (keys : List String) (es : Entries) : Option Entries :=
  atLast? openNext? keys es

/-- Adds a value to the table that a header has opened. -/
def insertBelow? (header keys : List String) (v : Item) (es : Entries) : Option Entries :=
  at? false (fun _ inner => insert? keys v inner) header .header es

end Entries
end Toml
end ApiContract
