import ApiContract.Text.Case

/-!
# Names of generated code

**Input:** any text: a schema name, an operation id, a property or header name, a pointer.

**Results:**

* the words of a text (`words`): maximal runs of ASCII letters and digits, cut again where a
  capital starts a new word;
* the two identifier forms built from the words: `pascalCase` for types and variants, `snakeCase`
  for functions, fields and modules;
* the escapes that make these forms usable: `typeName?` and `fieldIdent` avoid keywords and leading
  digits.
-/

namespace ApiContract
namespace Naming

/-- Words that the generated language reserves. -/
def keywords : List String :=
  ["as", "async", "await", "break", "const", "continue", "crate", "dyn", "else", "enum",
    "extern", "false", "fn", "for", "if", "impl", "in", "let", "loop", "match", "mod", "move",
    "mut", "pub", "ref", "return", "self", "Self", "static", "struct", "super", "trait", "true",
    "type", "unsafe", "use", "where", "while", "abstract", "become", "box", "do", "final",
    "macro", "override", "priv", "try", "typeof", "unsized", "virtual", "yield", "gen"]

/-- Whether a text is reserved. -/
def isKeyword (s : String) : Bool :=
  keywords.contains s

/-- Last segment of a pointer such as `#/components/schemas/Pet`. -/
def simpleName (pointer : String) : String :=
  String.ofList (pointer.toList.reverse.takeWhile (· != '/')).reverse

/-! ## Words -/

/-- Maximal runs of characters that satisfy `p`. -/
def runs (p : Char → Bool) : List Char → List (List Char)
  | [] => []
  | c :: rest =>
    if p c then
      match rest with
      | [] => [[c]]
      | d :: _ =>
        if p d then
          match runs p rest with
          | [] => [[c]]
          | run :: later => (c :: run) :: later
        else [c] :: runs p rest
    else runs p rest

/-- Whether `c` starts a word after `prev`: a capital after a small letter or a digit, or the last
capital of a group that a small letter follows (`HTTPClient`). -/
def startsWord (prev c : Char) (next : Option Char) : Bool :=
  c.isUpper && (prev.isLower || prev.isDigit || (next.any Char.isLower && prev.isUpper))

/-- What `prev` is followed by: the rest of its word, and the words after it. -/
def wordsAfter (prev : Char) : List Char → List Char × List (List Char)
  | [] => ([], [])
  | c :: rest =>
    let (word, later) := wordsAfter c rest
    if startsWord prev c rest.head? then ([], (c :: word) :: later) else (c :: word, later)

/-- Cuts a run of letters and digits where a capital starts a word. -/
def cutRun : List Char → List (List Char)
  | [] => []
  | c :: rest =>
    let (word, later) := wordsAfter c rest
    (c :: word) :: later

/-- The words of a text, over characters. -/
def wordsOf (s : List Char) : List (List Char) :=
  (runs Char.isAlphanum s).flatMap cutRun

/-- The words of a text. -/
def words (s : String) : List String :=
  (wordsOf s.toList).map String.ofList

/-! ## Case forms -/

/-- Capitalizes the first character. -/
def capitalize (s : String) : String :=
  String.ofList (Text.capitalizeFirst s.toList)

/-- Makes the first character small. -/
def decapitalize (s : String) : String :=
  String.ofList (Text.decapitalizeFirst s.toList)

/-- Words capitalized and joined, over characters. -/
def pascalChars (s : List Char) : List Char :=
  (wordsOf s).flatMap Text.capitalizeFirst

/-- Words in small letters, joined by underscores, over characters. -/
def snakeChars (s : List Char) : List Char :=
  List.intercalate ['_'] ((wordsOf s).map (·.map Char.toLower))

/-- Words capitalized and joined. -/
def pascalCase (s : String) : String :=
  String.ofList (pascalChars s.toList)

/-- Words in small letters, joined by underscores. -/
def snakeCase (s : String) : String :=
  String.ofList (snakeChars s.toList)

/-! ## Identifiers -/

/-- Whether the first character of a text is an ASCII digit. -/
def startsWithDigit (s : List Char) : Bool :=
  s.head?.any Char.isDigit

/-- Type name of a text, unless no letter or digit is left. -/
def typeName? (s : String) : Option String :=
  let name := pascalChars s.toList
  if name.isEmpty then none
  else if startsWithDigit name then some (String.ofList ('_' :: name))
  else if isKeyword (String.ofList name) then some (String.ofList (name ++ ['_']))
  else some (String.ofList name)

/-- Whether a character may stand in an identifier. -/
def isIdentChar (c : Char) : Bool :=
  c.isAlphanum || c == '_'

/-- Whether a text can be used as it is as the name of a type. -/
def isTypeIdent (s : String) : Bool :=
  match s.toList with
  | [] => false
  | c :: rest =>
    (c.isAlpha || (c == '_' && !rest.isEmpty)) && rest.all isIdentChar && !isKeyword s

/-- Identifier of a field, parameter, function or module for any wire name. -/
def fieldIdent (s : String) : String :=
  let name := snakeChars s.toList
  if name.isEmpty then "value"
  else if isKeyword (String.ofList name) then String.ofList (name ++ ['_'])
  else if startsWithDigit name then String.ofList ('_' :: name)
  else String.ofList name

end Naming
end ApiContract
