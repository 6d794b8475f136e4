import ApiContract.Bytes
import ApiContract.Yaml.Scalar

/-!
# YAML tokens

**Input:** a text.

**Results:** its tokens.  Indentation becomes explicit: a block list or record is opened where its
first entry stands and closed by `blockEnd`.  A word may turn out to be the name of an entry only at
the colon behind it, so every place where a name could begin is remembered (`Candidate`), and the
tokens that open it are put there afterwards.
-/

namespace ApiContract
namespace Yaml

/-- A tag as it is written: a handle and a suffix. -/
structure WrittenTag where
  /-- The handle; empty for a tag written in full. -/
  handle : String
  /-- What follows the handle. -/
  suffix : String
deriving Inhabited

/-- A token. -/
inductive Token
  /-- A `%YAML` line. -/
  | version (major minor : Nat)
  /-- A `%TAG` line. -/
  | tagRule (handle root : String)
  | documentStart
  | documentEnd
  | blockList
  | blockRecord
  | blockEnd
  | openList
  | closeList
  | openRecord
  | closeRecord
  | entry
  | comma
  | key
  | value
  | alias (name : String)
  | anchor (name : String)
  | tag (t : WrittenTag)
  /-- A scalar; `plain` if it has no quotes and is no block. -/
  | scalar (plain : Bool) (text : String)
deriving Inhabited

/-- A place where the name of an entry may begin. -/
structure Candidate where
  /-- Number of tokens before it. -/
  place : Nat
  /-- Characters before it. -/
  index : Nat
  /-- Line. -/
  line : Nat
  /-- Column. -/
  column : Nat
  /-- Whether nothing else than a name may stand there. -/
  required : Bool
deriving Inhabited

/-- The state of scanning. -/
structure Scan where
  /-- Place in the text. -/
  cursor : Cursor
  /-- Tokens so far. -/
  tokens : Array Token := #[]
  /-- Column of the innermost block, `-1` outside all blocks. -/
  indent : Int := -1
  /-- Columns of the blocks around it. -/
  outer : List Int := []
  /-- Candidate inside the innermost brackets, then inside those around them; the last one is
  outside all brackets. -/
  candidate : Option Candidate := none
  /-- Candidates inside the brackets around the innermost ones. -/
  outerCandidates : List (Option Candidate) := []
  /-- Whether a name may begin here. -/
  nameAllowed : Bool := true
deriving Inhabited

namespace Scan

/-- Whether the cursor is inside brackets. -/
def inFlow (s : Scan) : Bool :=
  !s.outerCandidates.isEmpty

/-- Adds a token. -/
def emit (s : Scan) (t : Token) : Scan :=
  { s with tokens := s.tokens.push t }

/-- Moves the cursor. -/
def moveTo (s : Scan) (c : Cursor) : Scan :=
  { s with cursor := c }

/-! ## Indentation -/

/-- Closes blocks that are indented deeper than a column. -/
def closeBlocks (column : Int) : List Int → Scan → Scan
  | [], s => s
  | outer :: more, s =>
    if s.indent > column then
      closeBlocks column more { s.emit .blockEnd with indent := outer, outer := more }
    else s

/-- Closes blocks that are indented deeper than a column, outside of brackets. -/
def unroll (column : Int) (s : Scan) : Scan :=
  if s.inFlow then s else closeBlocks column s.outer s

/-- Opens a block at a column if it is deeper than the innermost block.  The opening token is put
before the token numbered `place`, or at the end. -/
def roll (column : Nat) (place : Option Nat) (t : Token) (s : Scan) : Scan :=
  if s.inFlow || (column : Int) ≤ s.indent then s
  else
    let tokens :=
      match place with
      | none => s.tokens.push t
      | some i => s.tokens.insertIdxIfInBounds i t
    { s with tokens, outer := s.indent :: s.outer, indent := column }

/-! ## Candidates -/

/-- Whether a candidate can no longer be a name: its line has ended, or it is too long. -/
def isStale (c : Cursor) (k : Candidate) : Bool :=
  k.line < c.line || k.index + 1024 < c.index

/-- Drops stale candidates; fails if one of them was required. -/
def dropStale (s : Scan) : Option Scan :=
  let fresh? (k : Option Candidate) : Option (Option Candidate) :=
    match k with
    | some k => if isStale s.cursor k then if k.required then none else some none else some (some k)
    | none => some none
  match fresh? s.candidate, s.outerCandidates.mapM fresh? with
  | some candidate, some outerCandidates => some { s with candidate, outerCandidates }
  | _, _ => none

/-- Drops the innermost candidate; fails if it was required. -/
def dropCandidate (s : Scan) : Option Scan :=
  if s.candidate.any (·.required) then none else some { s with candidate := none }

/-- Remembers that a name may begin here. -/
def saveCandidate (s : Scan) : Option Scan :=
  if s.nameAllowed then
    let c := s.cursor
    let k : Candidate :=
      ⟨s.tokens.size, c.index, c.line, c.column, !s.inFlow && s.indent == (c.column : Int)⟩
    (dropCandidate s).map fun s => { s with candidate := some k }
  else some s

/-! ## Between tokens -/

/-- Passes blanks, comments and line breaks. -/
def skipGap : Nat → Scan → Scan
  | 0, s => s
  | bound + 1, s =>
    let tabs := s.inFlow || !s.nameAllowed
    let c := s.cursor.skipWhile fun x => x = ' ' || (tabs && x = '\t')
    let c := if c.isAt '#' then c.skipWhile fun x => !isBreak x else c
    if c.peek.any isBreak then
      skipGap bound
        { s with cursor := c.skipBreak, nameAllowed := if s.inFlow then s.nameAllowed else true }
    else s.moveTo c

/-! ## Directives -/

/-- Reads a number of at most nine digits. -/
def takeNumber (c : Cursor) : Option (Nat × Cursor) :=
  let (digits, c) := c.takeWhile Char.isDigit
  if digits.isEmpty || digits.length > 9 then none
  else some (digits.foldl (fun n d => n * 10 + (d.toNat - 48)) 0, c)

/-- Reads a tag handle. -/
def takeHandle (inDirective : Bool) (c : Cursor) : Option (String × Cursor) :=
  if c.isAt '!' then
    let (name, c) := c.skip.takeWhile isNameChar
    if c.isAt '!' then some (String.ofList ('!' :: (name ++ ['!'])), c.skip)
    else if inDirective && !name.isEmpty then none
    else some (String.ofList ('!' :: name), c)
  else none

/-- Whether a character may stand in a tag; brackets and commas only in tags written in full. -/
def isTagChar (full : Bool) (c : Char) : Bool :=
  isNameChar c || (";/?:@&=+$.!~*'()%".toList.contains c) ||
    (full && (c = ',' || c = '[' || c = ']'))

/-- Decodes percent escapes of a tag as bytes. -/
def tagBytes : List Char → Option (List UInt8)
  | [] => some []
  | '%' :: a :: b :: rest =>
    match hexValue? a, hexValue? b, tagBytes rest with
    | some a, some b, some bytes => some (UInt8.ofNat (a * 16 + b) :: bytes)
    | _, _, _ => none
  | c :: rest =>
    if c = '%' then none else (tagBytes rest).map (Bytes.ofChars [c] ++ ·)

/-- Reads the characters of a tag. -/
def takeTagText (full : Bool) (c : Cursor) : Option (String × Cursor) :=
  let (text, c) := c.takeWhile (isTagChar full)
  ((tagBytes text).bind Bytes.text?).map fun text => (text, c)

/-- Passes the rest of a directive's line. -/
def endDirective (c : Cursor) : Option Cursor :=
  let c := c.skipWhile isBlank
  let c := if c.isAt '#' then c.skipWhile fun x => !isBreak x else c
  match c.peek with
  | none => some c
  | some x => if isBreak x then some c.skipBreak else none

/-- Reads a directive. -/
def takeDirective (c : Cursor) : Option (Token × Cursor) :=
  let (name, c) := c.skip.takeWhile isNameChar
  if !isGap c.peek then none
  else if name = ['Y', 'A', 'M', 'L'] then do
    let (major, c) ← takeNumber (c.skipWhile isBlank)
    if !c.isAt '.' then none
    let (minor, c) ← takeNumber c.skip
    return (.version major minor, ← endDirective c)
  else if name = ['T', 'A', 'G'] then do
    let (handle, c) ← takeHandle true (c.skipWhile isBlank)
    if !c.peek.any isBlank then none
    let (root, c) ← takeTagText true (c.skipWhile isBlank)
    if root.isEmpty || !isGap c.peek then none
    return (.tagRule handle root, ← endDirective c)
  else none

/-! ## Properties of nodes -/

/-- Reads a tag. -/
def takeTag (inFlow : Bool) (c : Cursor) : Option (WrittenTag × Cursor) := do
  let (t, c) ←
    if c.peekAt 1 = some '<' then do
      let (text, c) ← takeTagText true (c.skipMany 2)
      if text.isEmpty || !c.isAt '>' then none
      some ((⟨"", text⟩ : WrittenTag), c.skip)
    else do
      let (handle, after) ← takeHandle false c
      if handle.length > 1 && handle.toList.getLast? == some '!' then
        let (text, c) ← takeTagText false after
        if text.isEmpty then none
        some (⟨handle, text⟩, c)
      else
        let (text, c) ← takeTagText false after
        let suffix := String.ofList (handle.toList.drop 1) ++ text
        some (if suffix.isEmpty then ⟨"", "!"⟩ else ⟨"!", suffix⟩, c)
  if isGap c.peek || (inFlow && c.isAt ',') then some (t, c) else none

/-- Reads the name of an anchor or alias. -/
def takeAnchor (c : Cursor) : Option (String × Cursor) :=
  let (name, c) := c.skip.takeWhile isNameChar
  let ends := isGap c.peek || c.peek.any fun x => "?:,]\x7d%@`".toList.contains x
  if name.isEmpty || !ends then none else some (String.ofList name, c)

/-! ## Tokens -/

/-- Takes a token that no name can contain. -/
def takeMark (s : Scan) (t : Token) (size : Nat) (nameAllowed : Bool) : Option Scan :=
  (dropCandidate s).map fun s =>
    { s.emit t with nameAllowed, cursor := s.cursor.skipMany size }

/-- Takes the token that a name may begin with, read by `take`. -/
def takeWord {α : Type} (s : Scan) (take : Cursor → Option (α × Cursor)) (t : α → Token) :
    Option Scan := do
  let s ← saveCandidate s
  let (a, c) ← take s.cursor
  return { s.emit (t a) with nameAllowed := false, cursor := c }

/-- Takes an opening bracket. -/
def takeOpen (s : Scan) (t : Token) : Option Scan :=
  (saveCandidate s).map fun s =>
    { s.emit t with
      outerCandidates := s.candidate :: s.outerCandidates, candidate := none,
      nameAllowed := true, cursor := s.cursor.skip }

/-- Takes a closing bracket. -/
def takeClose (s : Scan) (t : Token) : Option Scan :=
  (dropCandidate s).map fun s =>
    let s :=
      match s.outerCandidates with
      | k :: more => { s with candidate := k, outerCandidates := more }
      | [] => s
    { s.emit t with nameAllowed := false, cursor := s.cursor.skip }

/-- Takes the dash of a block list. -/
def takeEntry (s : Scan) : Option Scan :=
  if s.inFlow then takeMark s .entry 1 true
  else if !s.nameAllowed then none
  else takeMark (roll s.cursor.column none .blockList s) .entry 1 true

/-- Takes the question mark before a name. -/
def takeKey (s : Scan) : Option Scan :=
  if s.inFlow then takeMark s .key 1 false
  else if !s.nameAllowed then none
  else takeMark (roll s.cursor.column none .blockRecord s) .key 1 true

/-- Takes the colon before a value. -/
def takeValue (s : Scan) : Option Scan :=
  match s.candidate with
  | some k =>
    let s := { s with tokens := s.tokens.insertIdxIfInBounds k.place .key }
    let s := roll k.column (some k.place) .blockRecord s
    some { s.emit .value with
      candidate := none, nameAllowed := false, cursor := s.cursor.skip }
  | none =>
    if s.inFlow then some { s.emit .value with nameAllowed := false, cursor := s.cursor.skip }
    else if !s.nameAllowed then none
    else
      let s := roll s.cursor.column none .blockRecord s
      some { s.emit .value with nameAllowed := true, cursor := s.cursor.skip }

/-- Takes a block scalar. -/
def takeBlockScalar (s : Scan) (folded : Bool) : Option Scan := do
  let s ← dropCandidate s
  let (text, c) ← takeBlock folded s.indent s.cursor
  return { s.emit (.scalar false (String.ofList text)) with nameAllowed := true, cursor := c }

/-- Takes a plain scalar. -/
def takePlainScalar (s : Scan) : Option Scan := do
  let s ← saveCandidate s
  let (text, broken, c) ← takePlain s.inFlow (s.indent + 1).toNat s.cursor
  return { s.emit (.scalar true (String.ofList text)) with nameAllowed := broken, cursor := c }

/-- Whether a plain scalar may begin with a character, given the next one. -/
def startsPlain (inFlow : Bool) (x : Char) (next : Option Char) : Bool :=
  if x = '-' then !next.any isBlank
  else if x = '?' ∨ x = ':' then !inFlow && !isGap next
  else !(isBlank x || isBreak x || ",[]\x7b\x7d#&*!|>'\"%@`".toList.contains x)

/-- Takes the token at the cursor. -/
def takeToken (s : Scan) (x : Char) : Option Scan :=
  let c := s.cursor
  let next := c.peekAt 1
  if c.column = 0 && x = '%' then do
    let s ← dropCandidate (unroll (-1) s)
    let (t, c) ← takeDirective s.cursor
    return { s.emit t with nameAllowed := false, cursor := c }
  else if c.isAtMark '-' then takeMark (unroll (-1) s) .documentStart 3 false
  else if c.isAtMark '.' then takeMark (unroll (-1) s) .documentEnd 3 false
  else if x = '[' then takeOpen s .openList
  else if x = '\x7b' then takeOpen s .openRecord
  else if x = ']' then takeClose s .closeList
  else if x = '\x7d' then takeClose s .closeRecord
  else if x = ',' then takeMark s .comma 1 true
  else if x = '-' && isGap next then takeEntry s
  else if x = '?' && (s.inFlow || isGap next) then takeKey s
  else if x = ':' && (s.inFlow || isGap next) then takeValue s
  else if x = '*' then takeWord s takeAnchor .alias
  else if x = '&' then takeWord s takeAnchor .anchor
  else if x = '!' then takeWord s (takeTag s.inFlow) .tag
  else if x = '|' && !s.inFlow then takeBlockScalar s false
  else if x = '>' && !s.inFlow then takeBlockScalar s true
  else if x = '\'' ∨ x = '"' then
    takeWord s takeQuoted fun text => .scalar false (String.ofList text)
  else if startsPlain s.inFlow x next then takePlainScalar s
  else none

/-- Takes tokens up to the end of the text. -/
def run : Nat → Scan → Option (Array Token)
  | 0, _ => none
  | bound + 1, s => do
    let s ← dropStale (skipGap (s.cursor.rest.length + 1) s)
    let s := unroll s.cursor.column s
    match s.cursor.peek with
    | none =>
      let s ← dropCandidate (unroll (-1) s)
      return s.tokens
    | some x => run bound (← takeToken s x)

end Scan

/-- A text without the mark of byte order that may stand in front. -/
def withoutByteOrderMark : List Char → List Char
  | c :: cs => if c.toNat = 0xFEFF then cs else c :: cs
  | [] => []

/-- The tokens of a text. -/
def tokens? (s : String) : Option (List Token) :=
  let cs := withoutByteOrderMark s.toList
  if cs.all isAllowed then (Scan.run (cs.length + 2) { cursor := { rest := cs } }).map Array.toList
  else none

end Yaml
end ApiContract
