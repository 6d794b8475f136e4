import ApiContract.Node.Basic
import ApiContract.Yaml.Token

/-!
# Data of a YAML text

**Input:** the tokens of a text.

**Results:** the data of the one document that the text may hold.  An alias is replaced by the data
of its anchor; inside that very data it is `Node.endless`.  The mutual readers below are bounded by
a number that exceeds what any text of so many tokens needs.
-/

namespace ApiContract
namespace Yaml

/-- What data may refer to: rules for tag handles, and anchors, latest first. -/
structure Scope where
  /-- Beginning of a tag by its handle. -/
  handles : List (String × String)
  /-- Data by anchor. -/
  anchors : List (String × Node) := []

/-- Handles every document knows. -/
def defaultHandles : List (String × String) :=
  [("!", "!"), ("!!", "tag:yaml.org,2002:")]

/-- The full form of a tag; `none` for a handle without a rule. -/
def Scope.tag? (s : Scope) (t : WrittenTag) : Option String :=
  if t.handle.isEmpty then some t.suffix
  else (s.handles.lookup t.handle).map (· ++ t.suffix)

/-- Remembers the data of an anchor. -/
def Scope.anchored (s : Scope) (name? : Option String) (n : Node) : Scope :=
  match name? with
  | some name => { s with anchors := (name, n) :: s.anchors }
  | none => s

/-- Whether a tag belongs to the document. -/
def isLocalTag (tag : String) : Bool :=
  tag.toList.head? == some '!'

/-- The kind of scalar that a full tag asks for. -/
def tagKind (tag : String) : TagKind :=
  if tag = "tag:yaml.org,2002:null" then .null
  else if tag = "tag:yaml.org,2002:bool" then .flag
  else if tag = "tag:yaml.org,2002:int" then .whole
  else if tag = "tag:yaml.org,2002:float" then .real
  else .text

/-- Applies a tag to a scalar. -/
def tagScalar (tag? : Option String) (n : Node) : Node :=
  match tag? with
  | none => n
  | some tag => if isLocalTag tag then .tagged n else .typed (tagKind tag) n

/-- Applies a tag to a list or record. -/
def tagGroup (tag? : Option String) (n : Node) : Node :=
  match tag? with
  | none => n
  | some tag => if isLocalTag tag then .tagged n else n

/-- The data of a missing value. -/
def blank : Node :=
  .plain ""

/-- Tokens and what they may refer to. -/
abbrev Rest := List Token × Scope

/-- Anchor and tag in front of data. -/
structure Properties where
  /-- Name of the anchor. -/
  anchor : Option String := none
  /-- Full form of the tag. -/
  tag : Option String := none

/-- Reads anchor and tag, in either order. -/
def takeProperties (scope : Scope) : List Token → Option (Properties × List Token)
  | .anchor a :: .tag t :: rest => (scope.tag? t).map fun t => (⟨some a, some t⟩, rest)
  | .tag t :: .anchor a :: rest => (scope.tag? t).map fun t => (⟨some a, some t⟩, rest)
  | .anchor a :: rest => some (⟨some a, none⟩, rest)
  | .tag t :: rest => (scope.tag? t).map fun t => (⟨none, some t⟩, rest)
  | rest => some ({}, rest)

/-- Whether a token ends an entry of a block. -/
def endsBlockEntry : Token → Bool
  | .key | .value | .blockEnd => true
  | _ => false

/-- Whether a token ends an item of a list in brackets. -/
def endsListItem : Token → Bool
  | .comma | .closeList => true
  | _ => false

/-- Whether a token ends a member of a record in brackets. -/
def endsMember : Token → Bool
  | .comma | .closeRecord => true
  | _ => false

mutual

/-- Reads data.  `block` allows blocks, `loose` a block list that is not indented. -/
def takeNode (block loose : Bool) : Nat → Rest → Option (Node × Rest)
  | 0, _ => none
  | _ + 1, (.alias name :: ts, scope) =>
    (scope.anchors.lookup name).map fun n => (n, (ts, scope))
  | bound + 1, (ts, scope) => do
    let (p, ts) ← takeProperties scope ts
    let inner := scope.anchored p.anchor .endless
    match ts with
    | .scalar plain text :: ts =>
      let n := tagScalar p.tag (if plain then .plain text else .text (some text))
      return (n, (ts, scope.anchored p.anchor n))
    | .openList :: ts =>
      let (items, (ts, scope)) ← takeItems true bound (ts, inner)
      let n := tagGroup p.tag (.list false items)
      return (n, (ts, scope.anchored p.anchor n))
    | .openRecord :: ts =>
      let (members, (ts, scope)) ← takeMembers true bound (ts, inner)
      let n := tagGroup p.tag (.record members)
      return (n, (ts, scope.anchored p.anchor n))
    | .entry :: _ =>
      if loose then
        let (items, (ts, scope)) ← takeLooseEntries bound (ts, inner)
        let n := tagGroup p.tag (.list false items)
        return (n, (ts, scope.anchored p.anchor n))
      else takeEmpty p (ts, scope)
    | .blockList :: ts' =>
      if block then
        let (items, (ts, scope)) ← takeEntries bound (ts', inner)
        let n := tagGroup p.tag (.list false items)
        return (n, (ts, scope.anchored p.anchor n))
      else takeEmpty p (ts, scope)
    | .blockRecord :: ts' =>
      if block then
        let (members, (ts, scope)) ← takeFields bound (ts', inner)
        let n := tagGroup p.tag (.record members)
        return (n, (ts, scope.anchored p.anchor n))
      else takeEmpty p (ts, scope)
    | ts => takeEmpty p (ts, scope)

/-- Data of which only anchor or tag are there. -/
def takeEmpty (p : Properties) (r : Rest) : Option (Node × Rest) :=
  if p.anchor.isSome || p.tag.isSome then
    let n := tagScalar p.tag blank
    some (n, (r.1, r.2.anchored p.anchor n))
  else none

/-- Reads data, or nothing at all in front of a token that satisfies `ends`. -/
def takeOptional (block loose : Bool) (ends : Token → Bool) : Nat → Rest → Option (Node × Rest)
  | 0, _ => none
  | bound + 1, (ts, scope) =>
    if ts.head?.any ends then some (blank, (ts, scope)) else takeNode block loose bound (ts, scope)

/-- Reads the entries of a block list up to its end. -/
def takeEntries : Nat → Rest → Option (List Node × Rest)
  | 0, _ => none
  | _ + 1, (.blockEnd :: ts, scope) => some ([], (ts, scope))
  | bound + 1, (.entry :: ts, scope) => do
    let ends : Token → Bool
      | .entry | .blockEnd => true
      | _ => false
    let (n, r) ← takeOptional true false ends bound (ts, scope)
    let (ns, r) ← takeEntries bound r
    return (n :: ns, r)
  | _ + 1, _ => none

/-- Reads the entries of a block list that is not indented. -/
def takeLooseEntries : Nat → Rest → Option (List Node × Rest)
  | 0, _ => none
  | bound + 1, (.entry :: ts, scope) => do
    let ends : Token → Bool
      | .entry => true
      | t => endsBlockEntry t
    let (n, r) ← takeOptional true false ends bound (ts, scope)
    let (ns, r) ← takeLooseEntries bound r
    return (n :: ns, r)
  | _ + 1, r => some ([], r)

/-- Reads the value of an entry of a block record, if a colon stands there. -/
def takeFieldValue : Nat → Rest → Option (Node × Rest)
  | 0, _ => none
  | bound + 1, (.value :: ts, scope) => takeOptional true true endsBlockEntry bound (ts, scope)
  | _ + 1, r => some (blank, r)

/-- Reads the entries of a block record up to its end. -/
def takeFields : Nat → Rest → Option (List (Node × Node) × Rest)
  | 0, _ => none
  | _ + 1, (.blockEnd :: ts, scope) => some ([], (ts, scope))
  | bound + 1, (.key :: ts, scope) => do
    let (k, r) ← takeOptional true true endsBlockEntry bound (ts, scope)
    let (v, r) ← takeFieldValue bound r
    let (ms, r) ← takeFields bound r
    return ((k, v) :: ms, r)
  | _ + 1, _ => none

/-- Reads the value of a member in brackets, if a colon stands there. -/
def takeMemberValue (ends : Token → Bool) : Nat → Rest → Option (Node × Rest)
  | 0, _ => none
  | bound + 1, (.value :: ts, scope) => takeOptional false false ends bound (ts, scope)
  | _ + 1, r => some (blank, r)

/-- Reads the items of a list in brackets up to its end. -/
def takeItems (first : Bool) : Nat → Rest → Option (List Node × Rest)
  | 0, _ => none
  | _ + 1, (.closeList :: ts, scope) => some ([], (ts, scope))
  | bound + 1, (ts, scope) => do
    let ts ←
      if first then some ts
      else
        match ts with
        | .comma :: ts => some ts
        | _ => none
    match ts with
    | .closeList :: ts => return ([], (ts, scope))
    | .key :: ts =>
      let ends : Token → Bool
        | .value => true
        | t => endsListItem t
      let (k, r) ← takeOptional false false ends bound (ts, scope)
      let (v, r) ← takeMemberValue endsListItem bound r
      let (ns, r) ← takeItems false bound r
      return (.record [(k, v)] :: ns, r)
    | ts =>
      let (n, r) ← takeNode false false bound (ts, scope)
      let (ns, r) ← takeItems false bound r
      return (n :: ns, r)

/-- Reads the members of a record in brackets up to its end. -/
def takeMembers (first : Bool) : Nat → Rest → Option (List (Node × Node) × Rest)
  | 0, _ => none
  | _ + 1, (.closeRecord :: ts, scope) => some ([], (ts, scope))
  | bound + 1, (ts, scope) => do
    let ts ←
      if first then some ts
      else
        match ts with
        | .comma :: ts => some ts
        | _ => none
    match ts with
    | .closeRecord :: ts => return ([], (ts, scope))
    | .key :: ts =>
      let ends : Token → Bool
        | .value => true
        | t => endsMember t
      let (k, r) ← takeOptional false false ends bound (ts, scope)
      let (v, r) ← takeMemberValue endsMember bound r
      let (ms, r) ← takeMembers false bound r
      return ((k, v) :: ms, r)
    | ts =>
      let (k, r) ← takeNode false false bound (ts, scope)
      let (ms, r) ← takeMembers false bound r
      return ((k, blank) :: ms, r)

end

/-! ## Documents -/

/-- Reads the directives of a document. -/
def takeDirectives (version : Bool) (rules : List (String × String)) :
    List Token → Option (List (String × String) × List Token)
  | .version major minor :: ts =>
    if version || major ≠ 1 || (minor ≠ 1 && minor ≠ 2) then none
    else takeDirectives true rules ts
  | .tagRule handle root :: ts =>
    if (rules.lookup handle).isSome then none
    else takeDirectives version ((handle, root) :: rules) ts
  | ts => some (rules, ts)

/-- Passes marks of the end of a document. -/
def skipDocumentEnds : List Token → List Token
  | .documentEnd :: ts => skipDocumentEnds ts
  | ts => ts

/-- The data of a text of tokens, which holds at most one document. -/
def dataOf? (ts : List Token) : Option Node := do
  let bound := 4 * ts.length + 8
  let (rules, body) ← takeDirectives false [] ts
  let scope : Scope := { handles := rules ++ defaultHandles }
  let hasDirectives := body.length < ts.length
  match body with
  | [] => if hasDirectives then none else return blank
  | .documentStart :: body =>
    match body with
    | [] => return blank
    | .documentEnd :: rest => if (skipDocumentEnds rest).isEmpty then return blank else none
    | .documentStart :: _ | .version .. :: _ | .tagRule .. :: _ => none
    | body =>
      let (n, (rest, _)) ← takeNode true false bound (body, scope)
      if (skipDocumentEnds rest).isEmpty then return n else none
  | body =>
    if hasDirectives then none
    else
      let (n, (rest, _)) ← takeNode true false bound (body, scope)
      if (skipDocumentEnds rest).isEmpty then return n else none

/-- The data of a YAML text. -/
def data? (s : String) : Option Node :=
  (tokens? s).bind dataOf?

/-- How deeply a text may nest the lists and records that are read. -/
def depthLimit : Nat :=
  128

end Yaml
end ApiContract
