import ApiContract.Json.Value

/-!
# Generated code as tokens

Code is a list of tokens: words (identifiers, keywords, lifetimes, numbers), string literals given
by their value, and single punctuation characters, delimiters among them.  Layout is no part of it.

**Results:** `flat` turns a template into tokens; the combinators put code between delimiters and
commas; `compact` prints code with one space between two words and none elsewhere.
-/

namespace ApiContract

/-- A token of generated code. -/
inductive Token
  | word (s : String)
  /-- A string literal with the given value. -/
  | text (s : String)
  | mark (c : Char)
deriving DecidableEq, Inhabited

/-- Generated code. -/
abbrev Code := List Token

namespace Code

/-! ## Templates -/

/-- Whether a character belongs to a word of a template. -/
def isWordChar (c : Char) : Bool :=
  c.isAlphanum || c = '_'

/-- A word read in reverse, as code. -/
def wordOf (reversed : List Char) : Code :=
  if reversed.isEmpty then [] else [.word (String.ofList reversed.reverse)]

/-- Tokens of a template; `open_` holds the word being read, in reverse. -/
def flatFrom (open_ : List Char) : List Char → Code
  | [] => wordOf open_
  | c :: cs =>
    if isWordChar c then flatFrom (c :: open_) cs
    else if c = '\'' then wordOf open_ ++ flatFrom [c] cs
    else if c = ' ' ∨ c = '\n' then wordOf open_ ++ flatFrom [] cs
    else wordOf open_ ++ .mark c :: flatFrom [] cs

/-- The words and marks of a template. -/
def flat (template : String) : Code :=
  flatFrom [] template.toList

/-- A word. -/
def word (s : String) : Code :=
  [.word s]

/-- A string literal. -/
def literal (s : String) : Code :=
  [.text s]

/-! ## Combinators -/

/-- Code in braces. -/
def braces (c : Code) : Code :=
  .mark '\x7b' :: (c ++ [.mark '\x7d'])

/-- Code in parentheses. -/
def parens (c : Code) : Code :=
  .mark '(' :: (c ++ [.mark ')'])

/-- Code in brackets. -/
def brackets (c : Code) : Code :=
  .mark '[' :: (c ++ [.mark ']'])

/-- Code in angles. -/
def angles (c : Code) : Code :=
  .mark '<' :: (c ++ [.mark '>'])

/-- Pieces with commas between them. -/
def commas (cs : List Code) : Code :=
  List.intercalate [.mark ','] cs

theorem infix_braces (c : Code) : c <:+: braces c :=
  ⟨[.mark '\x7b'], [.mark '\x7d'], rfl⟩

theorem infix_commas {c : Code} {cs : List Code} (hc : c ∈ cs) : c <:+: commas cs := by
  induction cs with
  | nil => cases hc
  | cons d cs ih =>
    cases cs with
    | nil =>
      obtain rfl := List.mem_singleton.1 hc
      exact ⟨[], [], by simp [commas, List.intercalate]⟩
    | cons e cs =>
      have hcons : commas (d :: e :: cs) = d ++ ([.mark ','] ++ commas (e :: cs)) := by
        simp [commas, List.intercalate, List.intersperse]
      rw [hcons]
      rcases List.mem_cons.1 hc with rfl | hc
      · exact (List.prefix_append _ _).isInfix
      · exact (ih hc).trans ((List.suffix_append _ _).trans (List.suffix_append _ _)).isInfix

theorem infix_parens (c : Code) : c <:+: parens c :=
  ⟨[.mark '('], [.mark ')'], rfl⟩

/-! ## Documentation -/

/-- Lines of a text.  A line ends with a line feed, and a carriage return before it belongs to the
end; nothing follows the last line feed. -/
def linesFrom (open_ : List Char) : List Char → List (List Char)
  | [] => if open_.isEmpty then [] else [open_.reverse]
  | '\n' :: cs =>
    let line :=
      match open_ with
      | '\r' :: rest => rest
      | line => line
    line.reverse :: linesFrom [] cs
  | c :: cs => linesFrom (c :: open_) cs

/-- Lines of a text. -/
def lines (s : String) : List String :=
  (linesFrom [] s.toList).map String.ofList

/-- An attribute that documents what follows it. -/
def docAttr (s : String) : Code :=
  flat "#" ++ brackets (flat "doc =" ++ literal s)

/-- One attribute for each line of a documentation text. -/
def docAttrs (s : String) : Code :=
  (lines s).flatMap fun line => docAttr (if line.isEmpty then "" else " " ++ line)

/-! ## Printing -/

/-- Whether a token needs a space before another token of this kind. -/
def isWordy : Token → Bool
  | .mark _ => false
  | _ => true

/-- The characters of a token. -/
def tokenChars : Token → List Char
  | .word s => s.toList
  | .text s => Json.quote s.toList
  | .mark c => [c]

/-- The characters of code. -/
def chars : Code → List Char
  | [] => []
  | t :: ts =>
    let gap := isWordy t && ts.head?.any isWordy
    tokenChars t ++ (if gap then ' ' :: chars ts else chars ts)

/-- Code without layout. -/
def compact (c : Code) : String :=
  String.ofList (chars c)

end Code
end ApiContract
