import ApiContract.Code.Token
import ApiContract.Text.Shown

/-!
# The text of code

Code is laid out in lines: a brace, a semicolon and a comma between braces end a line, and every
brace that is open indents by four spaces.  Documentation attributes are written as comments.  No
two tokens run together, and no blank stands inside an operator.
-/

namespace ApiContract
namespace Code

/-- Words that an opening delimiter or a path does not follow closely. -/
def spacedWords : List String :=
  ["as", "async", "dyn", "else", "for", "if", "impl", "in", "let", "match", "move", "mut", "return",
    "use", "where"]

/-- Pairs of marks that make one operator. -/
def operators : List (Char × Char) :=
  [(':', ':'), ('-', '>'), ('=', '>'), ('=', '='), ('!', '='), ('<', '='), ('>', '='), ('&', '&'),
    ('|', '|'), ('.', '.'), ('+', '='), ('-', '='), ('*', '='), ('/', '=')]

/-- Whether a mark is written without a space before it. -/
def hugsLeft (c : Char) : Bool :=
  c ∈ [',', ';', ':', ')', ']', '.', '?', '!', '<', '>', '(', '[']

/-- Whether a mark is written without a space behind it. -/
def hugsRight (c : Char) : Bool :=
  c ∈ ['(', '[', '.', '!', '#', '&', '<', '*', '?', '|', '\'']

/-- Whether a space stands between two tokens; `before` stands before the first. -/
def hasGap (before : Option Token) (t u : Token) : Bool :=
  match t, u with
  | .mark ':', .mark ':' => false
  | .mark ':', _ => before != some (.mark ':')
  | .mark c, .mark d =>
    if (c, d) ∈ operators then false
    else c ∈ [',', '='] || !(hugsRight c || hugsLeft d || c = '>' && d = ':')
  | .mark '>', _ => true
  | .mark c, _ => !hugsRight c
  | .word s, .mark d => s ∈ spacedWords && d ∈ ['(', ':'] || !hugsLeft d
  | _, .mark d => !hugsLeft d
  | _, _ => true

/-- Where the writer of code stands. -/
structure Pen where
  /-- Delimiters that are open, innermost first. -/
  open_ : List Char := []
  /-- Whether the line is still empty. -/
  fresh : Bool := true
  /-- The two tokens written last, the last one first. -/
  before : Option Token × Option Token := (none, none)

namespace Pen

/-- How many open braces there are. -/
def depth (p : Pen) : Nat :=
  p.open_.count '\x7b'

/-- Whether the innermost delimiter is a brace, or none is open. -/
def inBraces (p : Pen) : Bool :=
  p.open_.head?.all (· = '\x7b')

/-- Whether a mark closes the innermost delimiter; the end of an arrow closes nothing. -/
def closes (p : Pen) (c : Char) : Bool :=
  match p.open_.head? with
  | some '(' => c = ')'
  | some '[' => c = ']'
  | some '<' => c = '>' && p.before.1 != some (.mark '-') && p.before.1 != some (.mark '=')
  | _ => false

/-- What is written before a token: the indentation on an empty line, else a space where one
belongs. -/
def lead (p : Pen) (t : Token) : List Char :=
  if p.fresh then List.replicate (4 * p.depth) ' '
  else
    match p.before with
    | (some last, older) => if hasGap older last t then [' '] else []
    | (none, _) => []

/-- The pen behind a token that stays on its line. -/
def wrote (p : Pen) (t : Token) : Pen :=
  { p with fresh := false, before := (some t, p.before.1) }

/-- The pen at the beginning of a line. -/
def newLine (p : Pen) : Pen :=
  { p with fresh := true, before := (none, none) }

end Pen

/-- Whether a token goes on with the line that a closing brace ends otherwise. -/
def continuesLine : Token → Bool
  | .mark c => c ∈ [',', ';', ')', ']', '.', '?']
  | .word s => s == "else"
  | _ => false

/-- The written form of a token. -/
def written : Token → List Char
  | .word s => s.toList
  | .text s => (Text.shown s).toList
  | .mark c => [c]

/-- Whether a documentation text can be written as a comment. -/
def isLine (s : String) : Bool :=
  match s.toList with
  | [] => true
  | c :: cs => c = ' ' && cs.all fun d => d ≠ '\n' && d ≠ '\r'

/-- What a pen writes for code. -/
def layoutFrom (p : Pen) : Code → List Char
  | .mark '#' :: .mark '[' :: .word "doc" :: .mark '=' :: .text s :: .mark ']' :: rest =>
    if isLine s then
      let open_ := if p.fresh then [] else ['\n']
      open_ ++ p.newLine.lead (.mark '/') ++ ['/', '/', '/'] ++ s.toList ++
        '\n' :: layoutFrom p.newLine rest
    else
      p.lead (.mark '#') ++ "#[doc = ".toList ++ (Text.shown s).toList ++
        ']' :: '\n' :: layoutFrom p.newLine rest
  | .mark '\x7b' :: rest =>
    let q := { p with open_ := '\x7b' :: p.open_ }
    match rest with
    | .mark '\x7d' :: _ => p.lead (.mark '\x7b') ++ '\x7b' :: layoutFrom q.newLine rest
    | _ => p.lead (.mark '\x7b') ++ '\x7b' :: '\n' :: layoutFrom q.newLine rest
  | .mark '\x7d' :: rest =>
    let q := { p with open_ := (p.open_.dropWhile (· ≠ '\x7b')).tail }
    let open_ := if p.fresh then [] else ['\n']
    let lead := open_ ++ q.newLine.lead (.mark '\x7d') ++ ['\x7d']
    if rest.head?.any continuesLine then lead ++ layoutFrom (q.wrote (.mark '\x7d')) rest
    else lead ++ '\n' :: layoutFrom q.newLine rest
  | .mark ':' :: .mark ':' :: .mark ':' :: rest =>
    ": ::".toList ++ layoutFrom (((p.wrote (.mark ':')).wrote (.mark ':'))) rest
  | .mark c :: rest =>
    let lead := p.lead (.mark c) ++ [c]
    if c ∈ ['(', '[', '<'] then
      lead ++ layoutFrom ({ p with open_ := c :: p.open_ }.wrote (.mark c)) rest
    else if p.closes c then
      lead ++ layoutFrom ({ p with open_ := p.open_.tail }.wrote (.mark c)) rest
    else if p.inBraces ∧ (c = ';' ∨ c = ',' ∧ p.open_ ≠ []) then
      lead ++ '\n' :: layoutFrom p.newLine rest
    else lead ++ layoutFrom (p.wrote (.mark c)) rest
  | t :: rest => p.lead t ++ written t ++ layoutFrom (p.wrote t) rest
  | [] => if p.fresh then [] else ['\n']

/-- The text of code, in lines. -/
def layout (c : Code) : String :=
  String.ofList (layoutFrom {} c)

end Code
end ApiContract
