import ApiContract.Code.Token
import ApiContract.Decimal.Whole
import ApiContract.Text.Blank

/-!
# Code from its text

**Input:** the text of a source file.

**Results:** its tokens.  Blanks and plain comments vanish, a documentation comment becomes the
attribute that it abbreviates, a string literal becomes its value.  What is written otherwise in the
same way, such as a number or a character, is a word.
-/

namespace ApiContract
namespace Code

/-! ## Words -/

/-- Whether a character can stand inside a word. -/
def continuesWord (c : Char) : Bool :=
  c.isAlphanum || c = '_' || c.toNat ≥ 128 && !Text.isBlank c

/-- The rest of a number after its first digits: a point with digits behind it, or an exponent with
a sign. -/
def numberTail : Nat → List Char → List Char × List Char
  | 0, cs => ([], cs)
  | bound + 1, cs =>
    match cs with
    | '.' :: d :: rest =>
      if d.isDigit then
        let more := numberTail bound (d :: rest)
        ('.' :: more.1, more.2)
      else ([], cs)
    | c :: rest =>
      if continuesWord c then
        let more := numberTail bound rest
        (c :: more.1, more.2)
      else ([], cs)
    | [] => ([], cs)

/-! ## String literals -/

/-- The character that a one-letter escape stands for. -/
def escaped? : Char → Option Char
  | 'n' => some '\n'
  | 'r' => some '\r'
  | 't' => some '\t'
  | '0' => some (Char.ofNat 0)
  | '"' => some '"'
  | '\'' => some '\''
  | '\\' => some '\\'
  | _ => none

/-- The character of a number in hexadecimal digits. -/
def charOf? (digits : List Char) : Option Char :=
  (Decimal.digits? 16 (digits.filter (· ≠ '_'))).bind fun n =>
    if n.isValidChar then some (Char.ofNat n) else none

/-- The value of a string literal after its opening quote, and what follows it. -/
def scanLiteral : Nat → List Char → Option (List Char × List Char)
  | 0, _ => none
  | bound + 1, cs =>
    let after (c : Char) (rest : List Char) :=
      (scanLiteral bound rest).map fun (s, rest) => (c :: s, rest)
    match cs with
    | '"' :: rest => some ([], rest)
    | '\\' :: '\n' :: rest => scanLiteral bound (rest.dropWhile Char.isWhitespace)
    | '\\' :: 'x' :: a :: b :: rest => (charOf? [a, b]).bind (after · rest)
    | '\\' :: 'u' :: '\x7b' :: rest =>
      (charOf? (rest.takeWhile (· ≠ '\x7d'))).bind
        (after · ((rest.dropWhile (· ≠ '\x7d')).drop 1))
    | '\\' :: c :: rest => (escaped? c).bind (after · rest)
    | '\r' :: '\n' :: rest => after '\n' rest
    | c :: rest => after c rest
    | [] => none

/-- The value of a raw literal after its opening quote, and what follows it; `fence` closes it. -/
def scanRaw (fence : List Char) : List Char → Option (List Char × List Char)
  | [] => none
  | c :: rest =>
    if fence.isPrefixOf (c :: rest) then some ([], (c :: rest).drop fence.length)
    else (scanRaw fence rest).map fun (s, rest) => (c :: s, rest)

/-- The hashes of a raw literal after its letter, and what follows its opening quote. -/
def rawFence? (cs : List Char) : Option (List Char × List Char) :=
  match cs.dropWhile (· = '#') with
  | '"' :: rest => some ('"' :: cs.takeWhile (· = '#'), rest)
  | _ => none

/-! ## Comments -/

/-- The body of a block comment at the given depth, and what follows it. -/
def scanBlock : Nat → List Char → Option (List Char × List Char)
  | depth, '*' :: '/' :: rest =>
    match depth with
    | 0 => some ([], rest)
    | outer + 1 => (scanBlock outer rest).map fun (s, rest) => ('*' :: '/' :: s, rest)
  | depth, '/' :: '*' :: rest =>
    (scanBlock (depth + 1) rest).map fun (s, rest) => ('/' :: '*' :: s, rest)
  | depth, c :: rest => (scanBlock depth rest).map fun (s, rest) => (c :: s, rest)
  | _, [] => none

/-- An attribute that documents what it stands in. -/
def innerDocAttr (s : String) : Code :=
  flat "#!" ++ brackets (flat "doc =" ++ literal s)

/-- What a line comment stands for, given what follows its two slashes. -/
def lineComment (s : List Char) : Code :=
  match s with
  | '/' :: '/' :: _ => []
  | '/' :: doc => docAttr (String.ofList doc)
  | '!' :: doc => innerDocAttr (String.ofList doc)
  | _ => []

/-- What a block comment stands for, given its body. -/
def blockComment (s : List Char) : Code :=
  match s with
  | '*' :: '*' :: _ => []
  | ['*'] => []
  | '*' :: doc => docAttr (String.ofList doc)
  | '!' :: doc => innerDocAttr (String.ofList doc)
  | _ => []

/-! ## Tokens -/

/-- A lifetime, or a character literal, after its opening quote. -/
def scanQuoted (cs : List Char) : Option (Code × List Char) :=
  match cs with
  | '\\' :: c :: rest =>
    match rest.dropWhile (· ≠ '\'') with
    | _ :: after =>
      some ([.word (String.ofList ('\'' :: '\\' :: c :: (rest.takeWhile (· ≠ '\'') ++ ['\''])))],
        after)
    | [] => none
  | c :: '\'' :: rest => some ([.word (String.ofList ['\'', c, '\''])], rest)
  | cs =>
    some ([.word (String.ofList ('\'' :: cs.takeWhile continuesWord))],
      cs.dropWhile continuesWord)

/-- The tokens at the beginning of a text that is not empty, and what follows them. -/
def scanToken (cs : List Char) : Option (Code × List Char) :=
  match cs with
  | '/' :: '/' :: rest =>
    let line := rest.takeWhile (· ≠ '\n')
    some (lineComment (Text.dropWhileEnd (· = '\r') line), rest.dropWhile (· ≠ '\n'))
  | '/' :: '*' :: rest => (scanBlock 0 rest).map fun (s, rest) => (blockComment s, rest)
  | '"' :: rest =>
    (scanLiteral (rest.length + 1) rest).map fun (s, rest) => ([.text (String.ofList s)], rest)
  | '\'' :: rest => scanQuoted rest
  | c :: rest =>
    if Text.isBlank c then some ([], rest)
    else if c.isDigit then
      let (tail, rest) := numberTail rest.length rest
      some ([.word (String.ofList (c :: tail))], rest)
    else if continuesWord c then
      match (if c = 'r' then rawFence? rest else none) with
      | some (fence, body) =>
        (scanRaw fence body).map fun (s, rest) => ([.text (String.ofList s)], rest)
      | none =>
        some ([.word (String.ofList (c :: rest.takeWhile continuesWord))],
          rest.dropWhile continuesWord)
    else some ([.mark c], rest)
  | [] => none

/-- The tokens of a text, in at most the given number of steps. -/
def tokensWithin : Nat → List Char → Option Code
  | _, [] => some []
  | 0, _ => none
  | bound + 1, cs => do
    let (ts, rest) ← scanToken cs
    return ts ++ (← tokensWithin bound rest)

/-- The tokens of a text. -/
def ofText? (s : String) : Option Code :=
  tokensWithin s.length s.toList

end Code
end ApiContract
