import ApiContract.Assoc
import ApiContract.Json.Value

/-!
# Reading JSON texts

**Input:** a text.

**Results:** a `Tree`, the text's structure with numbers and strings still as written, so that a
part nobody reads may hold a number without value or a string without text.  Reading is a scan into
tokens followed by one fold over them: `Reading.step` keeps the open lists and records on a stack.
`Tree.value?` then gives the value.
-/

namespace ApiContract
namespace Json

/-- The structure of a JSON text. -/
inductive Tree
  | null
  | flag (b : Bool)
  | number (n : Numeral)
  /-- A string; `none` if its escapes name half of a surrogate pair. -/
  | text (s : Option String)
  | list (items : List Tree)
  | record (members : List (Option String × Tree))
deriving Inhabited

/-- A word of a JSON text. -/
inductive Token
  | null
  | flag (b : Bool)
  | number (n : Numeral)
  | text (s : Option String)
  | openList
  | closeList
  | openRecord
  | closeRecord
  | comma
  | colon
deriving Inhabited

/-! ## Strings -/

/-- Part of a string: a character, or a code unit given by its number. -/
inductive Piece
  | char (c : Char)
  | unit (n : Nat)
deriving Inhabited

/-- Value of a hexadecimal digit. -/
def hexDigit? (c : Char) : Option Nat :=
  if c.isDigit then some (c.toNat - 48)
  else if 'a' ≤ c ∧ c ≤ 'f' then some (c.toNat - 87)
  else if 'A' ≤ c ∧ c ≤ 'F' then some (c.toNat - 55)
  else none

/-- The number that four hexadecimal digits name. -/
def hexUnit? (a b c d : Char) : Option Nat := do
  let a ← hexDigit? a
  let b ← hexDigit? b
  let c ← hexDigit? c
  let d ← hexDigit? d
  return ((a * 16 + b) * 16 + c) * 16 + d

/-- The character that a letter after a backslash stands for. -/
def shortEscape? (c : Char) : Option Char :=
  if c = '"' ∨ c = '\\' ∨ c = '/' then some c
  else if c = 'b' then some (Char.ofNat 8)
  else if c = 'f' then some (Char.ofNat 12)
  else if c = 'n' then some '\n'
  else if c = 'r' then some '\r'
  else if c = 't' then some '\t'
  else none

/-- The pieces of a string up to its closing quote, and what follows it. -/
def scanString : List Char → Option (List Piece × List Char)
  | [] => none
  | '"' :: rest => some ([], rest)
  | '\\' :: 'u' :: a :: b :: c :: d :: rest =>
    match hexUnit? a b c d, scanString rest with
    | some n, some (pieces, rest) => some (.unit n :: pieces, rest)
    | _, _ => none
  | '\\' :: e :: rest =>
    match shortEscape? e, scanString rest with
    | some c, some (pieces, rest) => some (.char c :: pieces, rest)
    | _, _ => none
  | c :: rest =>
    if c = '\\' ∨ c.toNat < 32 then none
    else (scanString rest).map fun (pieces, rest) => (.char c :: pieces, rest)

/-- The text of pieces; two units that form a surrogate pair give one character, half a pair
nothing. -/
def pieceText? : List Piece → Option (List Char)
  | [] => some []
  | .char c :: rest => (pieceText? rest).map (c :: ·)
  | .unit n :: rest =>
    if 0xD800 ≤ n ∧ n < 0xDC00 then
      match rest with
      | .unit m :: rest =>
        if 0xDC00 ≤ m ∧ m < 0xE000 then
          (pieceText? rest).map (Char.ofNat (0x10000 + (n - 0xD800) * 1024 + (m - 0xDC00)) :: ·)
        else none
      | _ => none
    else if 0xDC00 ≤ n ∧ n < 0xE000 then none
    else (pieceText? rest).map (Char.ofNat n :: ·)

/-! ## Numbers -/

/-- Reads an exponent, if one begins here; `none` if it begins but has no digit. -/
def scanExponent : List Char → Option (Option Int × List Char)
  | c :: rest =>
    if c = 'e' ∨ c = 'E' then
      let (negative, rest) :=
        match rest with
        | '-' :: more => (true, more)
        | '+' :: more => (false, more)
        | more => (false, more)
      let digits := rest.takeWhile Char.isDigit
      if digits.isEmpty then none
      else
        let n : Int := digits.foldl (fun n c => n * 10 + (c.toNat - 48)) 0
        some (some (if negative then -n else n), rest.dropWhile Char.isDigit)
    else some (none, c :: rest)
  | [] => some (none, [])

/-- Reads a fraction, if a point stands here; `none` if no digit follows the point. -/
def scanFraction : List Char → Option (List Char × List Char)
  | '.' :: rest =>
    let digits := rest.takeWhile Char.isDigit
    if digits.isEmpty then none else some (digits, rest.dropWhile Char.isDigit)
  | rest => some ([], rest)

/-- Reads the digits before the point: one zero, or digits that begin with another one. -/
def scanWhole : List Char → Option (List Char × List Char)
  | '0' :: rest => if rest.head?.any Char.isDigit then none else some (['0'], rest)
  | rest =>
    let digits := rest.takeWhile Char.isDigit
    if digits.isEmpty then none else some (digits, rest.dropWhile Char.isDigit)

/-- Reads an unsigned number. -/
def scanNumber (negative : Bool) (s : List Char) : Option (Numeral × List Char) := do
  let (whole, rest) ← scanWhole s
  let (fraction, rest) ← scanFraction rest
  let (exponent, rest) ← scanExponent rest
  return (⟨negative, whole, fraction, exponent⟩, rest)

/-! ## Tokens -/

/-- Whether a character may stand between tokens. -/
def isBlank (c : Char) : Bool :=
  c = ' ' || c = '\n' || c = '\t' || c = '\r'

/-- Reads a token. -/
def scanToken : List Char → Option (Token × List Char)
  | '[' :: rest => some (.openList, rest)
  | ']' :: rest => some (.closeList, rest)
  | '\x7b' :: rest => some (.openRecord, rest)
  | '\x7d' :: rest => some (.closeRecord, rest)
  | ',' :: rest => some (.comma, rest)
  | ':' :: rest => some (.colon, rest)
  | '"' :: rest =>
    (scanString rest).map fun (pieces, rest) =>
      (.text ((pieceText? pieces).map String.ofList), rest)
  | '-' :: rest => (scanNumber true rest).map fun (n, rest) => (.number n, rest)
  | 'n' :: 'u' :: 'l' :: 'l' :: rest => some (.null, rest)
  | 't' :: 'r' :: 'u' :: 'e' :: rest => some (.flag true, rest)
  | 'f' :: 'a' :: 'l' :: 's' :: 'e' :: rest => some (.flag false, rest)
  | rest => (scanNumber false rest).map fun (n, rest) => (.number n, rest)

/-- The tokens of a text; `size` bounds their number. -/
def tokensWithin : Nat → List Char → Option (List Token)
  | 0, s => if s.all isBlank then some [] else none
  | size + 1, s =>
    match s.dropWhile isBlank with
    | [] => some []
    | rest =>
      match scanToken rest with
      | some (t, rest) => (tokensWithin size rest).map (t :: ·)
      | none => none

/-- The tokens of a text.  No text has more tokens than characters. -/
def tokens (s : List Char) : Option (List Token) :=
  tokensWithin s.length s

/-! ## Structure -/

/-- A list or record that is still open, with what it holds so far in reverse order. -/
inductive Frame
  | list (done : List Tree)
  | record (done : List (Option String × Tree)) (key : Option String)
deriving Inhabited

/-- What may come next. -/
inductive Need
  /-- A value. -/
  | value
  /-- A value or the end of the list just opened. -/
  | valueOrClose
  /-- A name in the record with these members. -/
  | key (done : List (Option String × Tree))
  /-- A name or the end of the record just opened. -/
  | keyOrClose
  /-- The colon after a name. -/
  | colon (done : List (Option String × Tree)) (key : Option String)
  /-- A comma or the end of what is open, after a complete value. -/
  | afterValue (v : Tree)
deriving Inhabited

/-- The state of reading: open frames, innermost first, and what may come next. -/
structure Reading where
  /-- Open frames. -/
  frames : List Frame
  /-- What may come next. -/
  need : Need
deriving Inhabited

namespace Reading

/-- Before the first token. -/
def start : Reading :=
  ⟨[], .value⟩

/-- Takes a token where a value may stand. -/
def startValue (frames : List Frame) : Token → Option Reading
  | .null => some ⟨frames, .afterValue .null⟩
  | .flag b => some ⟨frames, .afterValue (.flag b)⟩
  | .number n => some ⟨frames, .afterValue (.number n)⟩
  | .text s => some ⟨frames, .afterValue (.text s)⟩
  | .openList => some ⟨.list [] :: frames, .valueOrClose⟩
  | .openRecord => some ⟨frames, .keyOrClose⟩
  | _ => none

/-- Takes one token. -/
def step (r : Reading) (t : Token) : Option Reading :=
  match r.need, t with
  | .value, t => startValue r.frames t
  | .valueOrClose, .closeList => some ⟨r.frames.drop 1, .afterValue (.list [])⟩
  | .valueOrClose, t => startValue r.frames t
  | .keyOrClose, .closeRecord => some ⟨r.frames, .afterValue (.record [])⟩
  | .keyOrClose, .text k => some ⟨r.frames, .colon [] k⟩
  | .key done, .text k => some ⟨r.frames, .colon done k⟩
  | .colon done k, .colon => some ⟨.record done k :: r.frames, .value⟩
  | .afterValue v, t =>
    match r.frames, t with
    | .list done :: frames, .comma => some ⟨.list (v :: done) :: frames, .value⟩
    | .list done :: frames, .closeList => some ⟨frames, .afterValue (.list (v :: done).reverse)⟩
    | .record done k :: frames, .comma => some ⟨frames, .key ((k, v) :: done)⟩
    | .record done k :: frames, .closeRecord =>
      some ⟨frames, .afterValue (.record ((k, v) :: done).reverse)⟩
    | _, _ => none
  | _, _ => none

/-- The tree, once the text has ended. -/
def result? (r : Reading) : Option Tree :=
  match r.frames, r.need with
  | [], .afterValue v => some v
  | _, _ => none

end Reading

/-- The structure of a text of tokens. -/
def Tree.ofTokens? (ts : List Token) : Option Tree :=
  (ts.foldlM Reading.step Reading.start).bind Reading.result?

/-- The structure of a text. -/
def Tree.parse? (s : String) : Option Tree :=
  (tokens s.toList).bind Tree.ofTokens?

/-! ## Values -/

mutual

/-- The value of a tree, if all its numbers and strings have one. -/
def Tree.value? : Tree → Option Value
  | .null => some .null
  | .flag b => some (.flag b)
  | .number n => n.value?.map .number
  | .text s => s.map .text
  | .list items => (itemValues? items).map .list
  | .record members => (memberValues? [] members).map .record

/-- The values of items. -/
def itemValues? : List Tree → Option (List Value)
  | [] => some []
  | t :: ts =>
    match t.value?, itemValues? ts with
    | some v, some vs => some (v :: vs)
    | _, _ => none

/-- The values of members, a later one of the same name replacing the earlier. -/
def memberValues? (done : List (String × Value)) :
    List (Option String × Tree) → Option (List (String × Value))
  | [] => some done
  | (k, t) :: rest =>
    match k, t.value? with
    | some k, some v => memberValues? (Assoc.put k v done) rest
    | _, _ => none

end

mutual

/-- How deeply lists and records are nested. -/
def Tree.depth : Tree → Nat
  | .list items => itemDepth items + 1
  | .record members => memberDepth members + 1
  | _ => 0

/-- The greatest depth among items. -/
def itemDepth : List Tree → Nat
  | [] => 0
  | t :: ts => max t.depth (itemDepth ts)

/-- The greatest depth among members. -/
def memberDepth : List (Option String × Tree) → Nat
  | [] => 0
  | (_, t) :: ts => max t.depth (memberDepth ts)

end

/-- How deeply a text may nest the lists and records that are read. -/
def depthLimit : Nat :=
  127

/-- The value of a text nested no deeper than `depthLimit`. -/
def Value.parse? (s : String) : Option Value :=
  (Tree.parse? s).bind fun t => if t.depth ≤ depthLimit then t.value? else none

end Json
end ApiContract
