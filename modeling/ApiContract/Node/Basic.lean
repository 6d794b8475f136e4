import ApiContract.Json.Tree
import ApiContract.Node.Plain

/-!
# Document data before it has a shape

A `Node` is what a JSON or YAML text holds, with everything that decides how it may be read: a plain
word can still be read as text or as the value it stands for, an empty word as an empty list or
record, a JSON list as the fields of a record in their order.  The readers of this module take a
node to a value of one shape, or fail.
-/

namespace ApiContract

/-- The kind of value that an explicit tag asks for. -/
inductive TagKind
  | null
  | flag
  | whole
  | real
  | text
deriving DecidableEq, Inhabited

/-- Data of a document. -/
inductive Node
  | null
  | flag (b : Bool)
  /-- A number; `none` if it is too large. -/
  | number (n : Option Json.Number)
  /-- A quoted text; `none` if it holds half of a surrogate pair. -/
  | text (s : Option String)
  /-- An unquoted word. -/
  | plain (s : String)
  /-- A scalar with one of the tags of the core schema. -/
  | typed (kind : TagKind) (scalar : Node)
  /-- A list; a positional one may stand for a record. -/
  | list (positional : Bool) (items : List Node)
  | record (members : List (Node × Node))
  /-- Data with a tag of the document's own. -/
  | tagged (data : Node)
  /-- A place that holds itself. -/
  | endless
deriving Inhabited

namespace Node

/-! ## From JSON -/

mutual

/-- The data of a JSON text. -/
def ofTree : Json.Tree → Node
  | .null => .null
  | .flag b => .flag b
  | .number n => .number n.value?
  | .text s => .text s
  | .list items => .list true (ofItems items)
  | .record members => .record (ofMembers members)

/-- The data of JSON items. -/
def ofItems : List Json.Tree → List Node
  | [] => []
  | t :: ts => ofTree t :: ofItems ts

/-- The data of JSON members. -/
def ofMembers : List (Option String × Json.Tree) → List (Node × Node)
  | [] => []
  | (k, t) :: ts => (.text k, ofTree t) :: ofMembers ts

end

/-! ## Any value -/

mutual

/-- The data with every plain word replaced by what it stands for, as far as `room` levels of lists
and records go.  Fails on data that is no value by itself. -/
def settle? (room : Nat) : Node → Option Node
  | .null => some .null
  | .flag b => some (.flag b)
  | .number n => n.map fun n => .number (some n)
  | .text s => s.map fun s => .text (some s)
  | .plain s => settlePlain? s
  | .typed kind n => settleTyped? kind n
  | .list _ items => if room = 0 then none else (settleItems? (room - 1) items).map (.list true)
  | .record members => if room = 0 then none else (settleMembers? (room - 1) members).map .record
  | .tagged _ => none
  | .endless => none

/-- Settles a plain word. -/
def settlePlain? (s : String) : Option Node :=
  match Plain.meaning s with
  | .null => some .null
  | .flag b => some (.flag b)
  | .number n => some (.number (some n))
  | .text s => some (.text (some s))
  | .refused => none

/-- Settles a scalar with a core tag. -/
def settleTyped? (kind : TagKind) : Node → Option Node
  | .plain s | .text (some s) =>
    match kind with
    | .text => some (.text (some s))
    | .null => if Plain.isNull s then some .null else none
    | .flag => (Plain.flag? s).map .flag
    | .whole =>
      ((Plain.whole? s.toList).filter Plain.isHeld).map fun n => .number (some (.whole n))
    | .real => (Plain.real? s.toList).map fun x => .number (some (.real x))
  | _ => none

/-- Settles items. -/
def settleItems? (room : Nat) : List Node → Option (List Node)
  | [] => some []
  | n :: ns =>
    match settle? room n, settleItems? room ns with
    | some m, some ms => some (m :: ms)
    | _, _ => none

/-- Settles members, their names included. -/
def settleMembers? (room : Nat) : List (Node × Node) → Option (List (Node × Node))
  | [] => some []
  | (k, n) :: ns =>
    match settle? room k, settle? room n, settleMembers? room ns with
    | some j, some m, some ms => some ((j, m) :: ms)
    | _, _, _ => none

end

mutual

/-- The JSON value of settled data. -/
def valueOf? : Node → Option Json.Value
  | .null => some .null
  | .flag b => some (.flag b)
  | .number (some (.real x)) => if x.isFinite then some (.number (.real x)) else some .null
  | .number (some n) => some (.number n)
  | .text (some s) => some (.text s)
  | .list _ items => (valuesOf? items).map .list
  | .record members => (membersOf? [] members).map .record
  | _ => none

/-- The JSON values of settled items. -/
def valuesOf? : List Node → Option (List Json.Value)
  | [] => some []
  | n :: ns =>
    match valueOf? n, valuesOf? ns with
    | some v, some vs => some (v :: vs)
    | _, _ => none

/-- The JSON members of settled data, a later one of the same name replacing the earlier. -/
def membersOf? (done : List (String × Json.Value)) :
    List (Node × Node) → Option (List (String × Json.Value))
  | [] => some done
  | (k, n) :: ns =>
    match k, valueOf? n with
    | .text (some k), some v => membersOf? (Assoc.put k v done) ns
    | _, _ => none

end

/-! ## Scalars -/

/-- Reads a text. -/
def text? : Node → Option String
  | .text s => s
  | .plain s => some s
  | .typed _ n => n.text?
  | .tagged n => n.text?
  | _ => none

/-- Reads a truth value. -/
def flag? : Node → Option Bool
  | .flag b => some b
  | .plain s => Plain.flag? s
  | .typed _ n => n.flag?
  | .tagged n => n.flag?
  | _ => none

/-- Reads a whole number that fits a word of the given width; a double is none. -/
def signed? (bits : Nat) : Node → Option Int
  | .number (some (.whole n)) => if Decimal.fitsSigned bits n then some n else none
  | _ => none

/-- Reads a whole number that is not negative and fits the given number of bits. -/
def unsigned? (bits : Nat) : Node → Option Nat
  | .number (some (.whole n)) => if 0 ≤ n ∧ n < Nat.pow 2 bits then some n.toNat else none
  | _ => none

/-- Reads something that may be nothing. -/
def optional? {α : Type} (read : Node → Option α) : Node → Option (Option α)
  | .null => some none
  | .plain s => if s.isEmpty || Plain.isNull s then some none else (read (.plain s)).map some
  | .typed .null (.plain s) => if Plain.isNull s then some none else none
  | n => (read n).map some

/-! ## Lists and records -/

/-- Reads the items of a list. -/
def items? : Node → Option (List Node)
  | .list _ items => some items
  | .plain s => if s.isEmpty then some [] else none
  | .tagged n => n.items?
  | _ => none

/-- Reads the members of a record. -/
def members? : Node → Option (List (Node × Node))
  | .record members => some members
  | .plain s => if s.isEmpty then some [] else none
  | .tagged n => n.members?
  | _ => none

/-- Reads a list within `room` levels. -/
def list? {α : Type} (room : Nat) (read : Node → Option α) (n : Node) : Option (List α) :=
  if room = 0 then none else n.items?.bind fun items => items.mapM read

/-- Reads named values into a list in the order of their first mention. -/
def entries? {κ α : Type} [BEq κ] (key : String → Option κ) (read : Node → Option α)
    (done : List (κ × α)) : List (Node × Node) → Option (List (κ × α))
  | [] => some done
  | (k, n) :: rest =>
    match k.text?.bind key, read n with
    | some k, some v => entries? key read (Assoc.put k v done) rest
    | _, _ => none

/-- Reads a record of values under arbitrary names, within `room` levels. -/
def map? {κ α : Type} [BEq κ] (room : Nat) (key : String → Option κ) (read : Node → Option α)
    (n : Node) : Option (List (κ × α)) :=
  if room = 0 then none else n.members?.bind (entries? key read [])

/-! ## Fields -/

/-- A field of a record. -/
structure Field where
  /-- Its name. -/
  name : String
  /-- Whether it has a value of its own when a positional list ends before it. -/
  hasDefault : Bool

/-- A field that positional lists have to give. -/
def field (name : String) : Field :=
  ⟨name, false⟩

/-- A field with a default. -/
def defaulted (name : String) : Field :=
  ⟨name, true⟩

/-- The place of a name, or of a number used as a name, among fields; `none` if it is no name at
all. -/
def placeOf? (fields : List Field) : Node → Option (Option Nat)
  | .number (some (.whole n)) => if n < 0 then none else some (some n.toNat)
  | k => k.text?.map fun name => fields.findIdx? (·.name == name)

/-- Assigns members to fields.  A field may be given once; other names are passed over. -/
def assign? (fields : List Field) (slots : List (Option Node)) :
    List (Node × Node) → Option (List (Option Node))
  | [] => some slots
  | (k, n) :: rest =>
    match placeOf? fields k with
    | none => none
    | some none => assign? fields slots rest
    | some (some i) =>
      match slots[i]? with
      | none => assign? fields slots rest
      | some (some _) => none
      | some none => assign? fields (slots.set i (some n)) rest

/-- Assigns the items of a positional list to fields. -/
def assignItems? : List Field → List Node → Option (List (Option Node))
  | [], [] => some []
  | [], _ :: _ => none
  | f :: fs, [] => if f.hasDefault then (assignItems? fs []).map (none :: ·) else none
  | _ :: fs, n :: ns => (assignItems? fs ns).map (some n :: ·)

/-- Reads what is given for each of the fields, within `room` levels. -/
def fields? (room : Nat) (fields : List Field) (n : Node) : Option (List (Option Node)) :=
  if room = 0 then none
  else
    match n with
    | .list true items => assignItems? fields items
    | n => n.members?.bind (assign? fields (fields.map fun _ => none))

/-- Reads a field that may be missing or nothing. -/
def ifGiven? {α : Type} (read : Node → Option α) : Option Node → Option (Option α)
  | none => some none
  | some n => n.optional? read

/-- Reads a field that has a default. -/
def orDefault? {α : Type} (default : α) (read : Node → Option α) : Option Node → Option α
  | none => some default
  | some n => read n

/-- Reads a field that must be given. -/
def given? {α : Type} (read : Node → Option α) : Option Node → Option α
  | none => none
  | some n => read n

/-- Reads any value, within `room` levels. -/
def any? (room : Nat) (n : Node) : Option Json.Value :=
  (n.settle? room).bind valueOf?

end Node
end ApiContract
