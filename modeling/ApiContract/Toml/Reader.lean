import ApiContract.Toml.Table

/-!
# Data of a TOML text

**Input:** a text in TOML.

**Results:** `lines?` takes the text apart, and `data?` does what one line after another says and
gives the outermost table as a record, with the keys in the order in which the text made them; both
fail where the text is not in TOML.
-/

namespace ApiContract
namespace Toml

/-- How deep lists and tables in braces may stand inside each other, and how many dots a key may
have. -/
def depthLimit : Nat := 79

mutual

/-- A value; `bound` bounds the steps, `room` the depth. -/
def scanValue : Nat → Nat → List Char → Option (Node × List Char)
  | 0, _, _ => none
  | bound + 1, room, cs =>
    match cs with
    | '[' :: rest =>
      match room with
      | 0 => none
      | room + 1 => scanItems bound room [] rest
    | '\x7b' :: rest =>
      match room with
      | 0 => none
      | room + 1 =>
        match skipBlanks rest with
        | '\x7d' :: rest => some (.record [], rest)
        | rest => scanPairs bound room [] rest
    | c :: rest =>
      if c = '"' ∨ c = '\'' then
        (scanString (c :: rest)).map fun (s, rest) => (.text (some (String.ofList s)), rest)
      else
        let (word, rest) := scanWord (c :: rest)
        (wordValue? word).map fun v => (v, rest)
    | [] => none

/-- The items of a list that are left, after those in `done`, which are in reverse order. -/
def scanItems : Nat → Nat → List Node → List Char → Option (Node × List Char)
  | 0, _, _, _ => none
  | bound + 1, room, done, cs =>
    match skipGaps cs.length cs with
    | ']' :: rest => some (.list true done.reverse, rest)
    | cs =>
      match scanValue bound room cs with
      | none => none
      | some (v, rest) =>
        match skipGaps rest.length rest with
        | ',' :: rest => scanItems bound room (v :: done) rest
        | ']' :: rest => some (.list true (v :: done).reverse, rest)
        | _ => none

/-- The pairs of a table in braces that are left, after those in `done`. -/
def scanPairs : Nat → Nat → Entries → List Char → Option (Node × List Char)
  | 0, _, _, _ => none
  | bound + 1, room, done, cs =>
    match scanKeys depthLimit cs with
    | some (keys, '=' :: rest) =>
      match scanValue bound room (skipBlanks rest) with
      | none => none
      | some (v, rest) =>
        match Entries.insert? keys (.value v) done, skipBlanks rest with
        | some done, ',' :: rest => scanPairs bound room done rest
        | some done, '\x7d' :: rest => some ((Item.table .header done).node, rest)
        | _, _ => none
    | _ => none

end

/-- A line that is not blank. -/
inductive Line
  /-- A header, which opens a table. -/
  | header (keys : List String)
  /-- A header in double brackets, which opens one more table of a list. -/
  | listHeader (keys : List String)
  /-- A value under a key with dots, for the table that is open. -/
  | entry (keys : List String) (value : Node)

/-- A line, and what is left behind it. -/
def scanLine? (cs : List Char) : Option (Line × List Char) := do
  match cs with
  | '[' :: '[' :: rest =>
    match ← scanKeys depthLimit rest with
    | (keys, ']' :: ']' :: rest) => return (.listHeader keys, ← endLine? rest)
    | _ => none
  | '[' :: rest =>
    match ← scanKeys depthLimit rest with
    | (keys, ']' :: rest) => return (.header keys, ← endLine? rest)
    | _ => none
  | cs =>
    match ← scanKeys depthLimit cs with
    | (keys, '=' :: rest) =>
      let (v, rest) ← scanValue (2 * rest.length + 2) depthLimit (skipBlanks rest)
      return (.entry keys v, ← endLine? rest)
    | _ => none

/-- Lines that are not blank, at most the given number. -/
def scanLines? : Nat → List Char → Option (List Line)
  | 0, cs => if cs.isEmpty then some [] else none
  | bound + 1, cs =>
    match skipGaps cs.length cs with
    | [] => some []
    | cs =>
      match scanLine? (skipBlanks cs) with
      | some (line, rest) => (scanLines? bound rest).map (line :: ·)
      | none => none

/-- The lines of a text.  A byte order mark may stand at its beginning. -/
def lines? (s : String) : Option (List Line) :=
  let cs :=
    match s.toList with
    | '\uFEFF' :: rest => rest
    | cs => cs
  scanLines? (cs.length + 1) cs

/-- What has been read: the outermost table, and the header of the open table. -/
structure Reading where
  entries : Entries := []
  header : List String := []

/-- Does what a line says. -/
def Reading.take? (r : Reading) : Line → Option Reading
  | .header keys => (r.entries.header? keys).map fun es => ⟨es, keys⟩
  | .listHeader keys => (r.entries.listHeader? keys).map fun es => ⟨es, keys⟩
  | .entry keys v => (r.entries.insertBelow? r.header keys (.value v)).map fun es => ⟨es, r.header⟩

/-- The outermost table of a text. -/
def entries? (s : String) : Option Entries := do
  let r ← (← lines? s).foldlM Reading.take? {}
  return r.entries

/-- The data of a text. -/
def data? (s : String) : Option Node :=
  (entries? s).map fun es => (Item.table .header es).node

end Toml
end ApiContract
