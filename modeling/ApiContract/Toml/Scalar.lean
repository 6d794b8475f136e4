import ApiContract.Decimal.Nearest
import ApiContract.Decimal.Whole
import ApiContract.Node.Basic

/-!
# Blanks, strings and unquoted values of a TOML text

Every scanner takes the characters that are left and gives what it has read together with the rest,
or fails.
-/

namespace ApiContract
namespace Toml

/-! ## Blanks and ends of lines -/

/-- Whether a character is a space or a tab. -/
def isBlank (c : Char) : Bool :=
  c = ' ' || c = '\t'

/-- Whether a character may stand in a comment or in a literal string. -/
def isAllowed (c : Char) : Bool :=
  c = '\t' || (0x20 ≤ c.toNat && c.toNat ≠ 0x7f)

/-- Passes blanks. -/
def skipBlanks (cs : List Char) : List Char :=
  cs.dropWhile isBlank

/-- Passes blanks and a comment. -/
def skipComment (cs : List Char) : List Char :=
  match skipBlanks cs with
  | '#' :: rest => rest.dropWhile isAllowed
  | rest => rest

/-- Passes a line break. -/
def lineBreak? : List Char → Option (List Char)
  | '\n' :: rest => some rest
  | '\r' :: '\n' :: rest => some rest
  | _ => none

/-- Passes what may stand behind the last word of a line, to the beginning of the next. -/
def endLine? (cs : List Char) : Option (List Char) :=
  match skipComment cs with
  | [] => some []
  | rest => lineBreak? rest

/-- Passes blanks, comments and line breaks, of these at most the given number. -/
def skipGaps : Nat → List Char → List Char
  | 0, cs => skipComment cs
  | bound + 1, cs =>
    let rest := skipComment cs
    match lineBreak? rest with
    | some rest => skipGaps bound rest
    | none => rest

/-! ## Strings -/

/-- The character of a number in hexadecimal digits. -/
def charOf? (digits : List Char) : Option Char :=
  (Decimal.digits? 16 digits).bind fun n =>
    if n.isValidChar then some (Char.ofNat n) else none

/-- The character that a one-letter escape stands for. -/
def escaped? : Char → Option Char
  | 'b' => some (Char.ofNat 8)
  | 't' => some '\t'
  | 'n' => some '\n'
  | 'f' => some (Char.ofNat 12)
  | 'r' => some '\r'
  | '"' => some '"'
  | '\\' => some '\\'
  | _ => none

/-- Puts a character in front of what follows it. -/
def before (c : Char) (r : Option (List Char × List Char)) : Option (List Char × List Char) :=
  r.map fun (s, rest) => (c :: s, rest)

/-- A string in one line, after its opening quote. -/
def scanBasic : List Char → Option (List Char × List Char)
  | '"' :: rest => some ([], rest)
  | '\\' :: 'u' :: a :: b :: c :: d :: rest =>
    (charOf? [a, b, c, d]).bind (before · (scanBasic rest))
  | '\\' :: 'U' :: a :: b :: c :: d :: e :: f :: g :: h :: rest =>
    (charOf? [a, b, c, d, e, f, g, h]).bind (before · (scanBasic rest))
  | '\\' :: c :: rest => (escaped? c).bind (before · (scanBasic rest))
  | c :: rest => if isAllowed c then before c (scanBasic rest) else none
  | [] => none

/-- Whether a backslash before these characters joins the line with the next one. -/
def joinsLines (cs : List Char) : Bool :=
  (lineBreak? (skipBlanks cs)).isSome

/-- A string of several lines, after its opening quotes; `joining` tells that blanks and line breaks
are passed over. -/
def scanLongBasic (joining : Bool) : List Char → Option (List Char × List Char)
  | '"' :: '"' :: '"' :: '"' :: '"' :: rest => some (['"', '"'], rest)
  | '"' :: '"' :: '"' :: '"' :: rest => some (['"'], rest)
  | '"' :: '"' :: '"' :: rest => some ([], rest)
  | '\\' :: 'u' :: a :: b :: c :: d :: rest =>
    (charOf? [a, b, c, d]).bind (before · (scanLongBasic false rest))
  | '\\' :: 'U' :: a :: b :: c :: d :: e :: f :: g :: h :: rest =>
    (charOf? [a, b, c, d, e, f, g, h]).bind (before · (scanLongBasic false rest))
  | '\\' :: c :: rest =>
    if joinsLines (c :: rest) then scanLongBasic true (c :: rest)
    else (escaped? c).bind (before · (scanLongBasic false rest))
  | '\r' :: '\n' :: rest =>
    if joining then scanLongBasic true rest else before '\n' (scanLongBasic false rest)
  | c :: rest =>
    if joining && (isBlank c || c = '\n') then scanLongBasic true rest
    else if isAllowed c || c = '\n' then before c (scanLongBasic false rest)
    else none
  | [] => none

/-- A literal string in one line, after its opening quote. -/
def scanLiteral : List Char → Option (List Char × List Char)
  | '\'' :: rest => some ([], rest)
  | c :: rest => if isAllowed c then before c (scanLiteral rest) else none
  | [] => none

/-- A literal string of several lines, after its opening quotes. -/
def scanLongLiteral : List Char → Option (List Char × List Char)
  | '\'' :: '\'' :: '\'' :: '\'' :: '\'' :: rest => some (['\'', '\''], rest)
  | '\'' :: '\'' :: '\'' :: '\'' :: rest => some (['\''], rest)
  | '\'' :: '\'' :: '\'' :: rest => some ([], rest)
  | '\r' :: '\n' :: rest => before '\n' (scanLongLiteral rest)
  | c :: rest => if isAllowed c || c = '\n' then before c (scanLongLiteral rest) else none
  | [] => none

/-- A string of several lines starts behind a line break that follows its quotes. -/
def dropFirstBreak (cs : List Char) : List Char :=
  (lineBreak? cs).getD cs

/-- A string of any kind. -/
def scanString : List Char → Option (List Char × List Char)
  | '"' :: '"' :: '"' :: rest => scanLongBasic false (dropFirstBreak rest)
  | '"' :: rest => scanBasic rest
  | '\'' :: '\'' :: '\'' :: rest => scanLongLiteral (dropFirstBreak rest)
  | '\'' :: rest => scanLiteral rest
  | _ => none

/-! ## Keys -/

/-- Whether a character may stand in a key without quotes. -/
def isKeyChar (c : Char) : Bool :=
  c.isAlphanum || c = '_' || c = '-'

/-- A key without dots. -/
def scanKey : List Char → Option (String × List Char)
  | '"' :: rest => (scanBasic rest).map fun (s, rest) => (String.ofList s, rest)
  | '\'' :: rest => (scanLiteral rest).map fun (s, rest) => (String.ofList s, rest)
  | cs =>
    let word := cs.takeWhile isKeyChar
    if word.isEmpty then none else some (String.ofList word, cs.dropWhile isKeyChar)

/-- Keys with dots between them, at most the given number. -/
def scanKeys : Nat → List Char → Option (List String × List Char)
  | 0, _ => none
  | bound + 1, cs => do
    let (key, rest) ← scanKey (skipBlanks cs)
    match skipBlanks rest with
    | '.' :: rest =>
      let (keys, rest) ← scanKeys bound rest
      return (key :: keys, rest)
    | rest => return ([key], rest)

/-! ## Numbers -/

/-- Digits with single bars between them, without the bars. -/
def plainDigits? (cs : List Char) : Option (List Char) :=
  match cs with
  | [c] => if c = '_' then none else some [c]
  | c :: '_' :: rest => if c = '_' then none else (plainDigits? rest).map (c :: ·)
  | c :: rest => if c = '_' then none else (plainDigits? rest).map (c :: ·)
  | [] => none

/-- The value of digits with bars in a radix. -/
def digits? (radix : Nat) (cs : List Char) : Option Nat :=
  (plainDigits? cs).bind (Decimal.digits? radix)

/-- A sign and what follows it. -/
def cutSign : List Char → Bool × List Char
  | '-' :: rest => (true, rest)
  | '+' :: rest => (false, rest)
  | cs => (false, cs)

/-- Whether decimal digits have no needless zero in front. -/
def isLean : List Char → Bool
  | ['0'] => true
  | '0' :: _ => false
  | _ => true

/-- A whole number of 64 bits. -/
def whole? (cs : List Char) : Option Int :=
  let n? : Option Int :=
    match cs with
    | '0' :: 'x' :: ds => (digits? 16 ds).map Int.ofNat
    | '0' :: 'o' :: ds => (digits? 8 ds).map Int.ofNat
    | '0' :: 'b' :: ds => (digits? 2 ds).map Int.ofNat
    | cs =>
      let (negative, ds) := cutSign cs
      if isLean ds then
        (digits? 10 ds).map fun n => if negative then -(n : Int) else n
      else none
  n?.filter (Decimal.fitsSigned 64)

/-- An exponent: a sign, and digits with bars. -/
def isExponent (cs : List Char) : Bool :=
  (digits? 10 (cutSign cs).2).isSome

/-- Whether characters are a number with a fraction or an exponent. -/
def isReal (cs : List Char) : Bool :=
  let body := (cutSign cs).2
  let isStop (c : Char) : Bool := c = '.' || c = 'e' || c = 'E'
  let whole := body.takeWhile (!isStop ·)
  isLean whole && (digits? 10 whole).isSome &&
    match body.dropWhile (!isStop ·) with
    | '.' :: rest =>
      let isE (c : Char) : Bool := c = 'e' || c = 'E'
      (digits? 10 (rest.takeWhile (!isE ·))).isSome &&
        match rest.dropWhile (!isE ·) with
        | _ :: rest => isExponent rest
        | [] => true
    | _ :: rest => isExponent rest
    | [] => false

/-- A number that need not be whole; one that is too large has no value. -/
def real? (cs : List Char) : Option Float :=
  if (cutSign cs).2 = "inf".toList ∨ (cutSign cs).2 = "nan".toList then Decimal.real? cs
  else if isReal cs then
    (Decimal.real? (cs.filter (· ≠ '_'))).filter (·.toBits != 0x7ff0000000000000)
  else none

/-! ## Dates -/

/-- The number of exactly so many digits. -/
def field? (width : Nat) (cs : List Char) : Option Nat :=
  if cs.length = width then Decimal.digits? 10 cs else none

/-- Whether digits of a width give a number between two others. -/
def isField (width low high : Nat) (cs : List Char) : Bool :=
  (field? width cs).any fun n => low ≤ n && n ≤ high

/-- Days of a month. -/
def daysOf (year month : Nat) : Nat :=
  if month = 2 then
    if year % 4 = 0 ∧ (year % 100 ≠ 0 ∨ year % 400 = 0) then 29 else 28
  else if month = 4 ∨ month = 6 ∨ month = 9 ∨ month = 11 then 30
  else 31

/-- Whether characters are a date. -/
def isDate (cs : List Char) : Bool :=
  match cs with
  | [a, b, c, d, '-', e, f, '-', g, h] =>
    match field? 4 [a, b, c, d], field? 2 [e, f] with
    | some year, some month =>
      1 ≤ month && month ≤ 12 && isField 2 1 (daysOf year month) [g, h]
    | _, _ => false
  | _ => false

/-- Whether characters are the offset of a time. -/
def isOffset (cs : List Char) : Bool :=
  match cs with
  | ['Z'] => true
  | ['z'] => true
  | [s, a, b, ':', c, d] => (s = '+' || s = '-') && isField 2 0 23 [a, b] && isField 2 0 59 [c, d]
  | _ => false

/-- Whether characters are a time of day, with an offset behind it if `offset` allows one. -/
def isTime (offset : Bool) (cs : List Char) : Bool :=
  match cs with
  | a :: b :: ':' :: c :: d :: ':' :: e :: f :: rest =>
    isField 2 0 23 [a, b] && isField 2 0 59 [c, d] && isField 2 0 60 [e, f] &&
      let rest? :=
        match rest with
        | '.' :: more =>
          if more.head?.any Char.isDigit then some (more.dropWhile Char.isDigit) else none
        | rest => some rest
      rest?.any fun rest => rest.isEmpty || offset && isOffset rest
  | _ => false

/-- Whether characters are a date, a time, or both. -/
def isMoment (cs : List Char) : Bool :=
  isDate cs || isTime false cs ||
    isDate (cs.take 10) && (cs.drop 10).head?.any (· ∈ ['T', 't', ' ']) && isTime true (cs.drop 11)

/-! ## Unquoted values -/

/-- Whether a character may stand in an unquoted value. -/
def isWordChar (c : Char) : Bool :=
  c.isAlphanum || c ∈ ['_', '-', '+', '.', ':']

/-- An unquoted word and what follows it; a space between a date and a time belongs to it. -/
def scanWord (cs : List Char) : List Char × List Char :=
  let word := cs.takeWhile isWordChar
  let rest := cs.dropWhile isWordChar
  match rest with
  | ' ' :: more =>
    if isDate word && more.head?.any Char.isDigit then
      (word ++ ' ' :: more.takeWhile isWordChar, more.dropWhile isWordChar)
    else (word, rest)
  | rest => (word, rest)

/-- The value of an unquoted word.  A date is read as a number that has no value. -/
def wordValue? (word : List Char) : Option Node :=
  if word = "true".toList then some (.flag true)
  else if word = "false".toList then some (.flag false)
  else if isMoment word then some (.number none)
  else
    match whole? word with
    | some n => some (.number (some (.whole n)))
    | none => (real? word).map fun x => .number (some (.real x))

end Toml
end ApiContract
