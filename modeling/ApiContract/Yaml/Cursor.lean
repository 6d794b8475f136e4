/-!
# A place in a YAML text

A cursor holds what is left of a text and where it stands.  Carriage return and line feed together
are one line break; next line, line separator and paragraph separator are breaks of their own.
-/

namespace ApiContract
namespace Yaml

/-- A place in a text. -/
structure Cursor where
  /-- What is left. -/
  rest : List Char
  /-- Characters passed. -/
  index : Nat := 0
  /-- Lines passed. -/
  line : Nat := 0
  /-- Characters passed in the line. -/
  column : Nat := 0
deriving Inhabited

/-- Whether a character is a space or a tab. -/
def isBlank (c : Char) : Bool :=
  c = ' ' || c = '\t'

/-- Whether a character ends a line. -/
def isBreak (c : Char) : Bool :=
  c = '\n' || c = '\r' || c.toNat = 0x85 || c.toNat = 0x2028 || c.toNat = 0x2029

/-- Whether a character, or the end of the text, separates words. -/
def isGap : Option Char → Bool
  | none => true
  | some c => isBlank c || isBreak c

/-- Whether a character may stand in names of anchors, tag handles and directives. -/
def isNameChar (c : Char) : Bool :=
  c.isAlphanum || c = '_' || c = '-'

/-- Whether a character may occur in a text at all. -/
def isAllowed (c : Char) : Bool :=
  let n := c.toNat
  n = 9 || n = 10 || n = 13 || (0x20 ≤ n && n ≤ 0x7e) || n = 0x85 || (0xa0 ≤ n && n ≤ 0xd7ff) ||
    (0xe000 ≤ n && n ≤ 0xfffd) || 0x10000 ≤ n

namespace Cursor

/-- The character that comes next. -/
def peek (c : Cursor) : Option Char :=
  c.rest.head?

/-- The character `n` places ahead. -/
def peekAt (c : Cursor) (n : Nat) : Option Char :=
  c.rest[n]?

/-- Whether a given character comes next. -/
def isAt (c : Cursor) (x : Char) : Bool :=
  c.peek == some x

/-- Passes one character of the line. -/
def skip (c : Cursor) : Cursor :=
  { c with rest := c.rest.drop 1, index := c.index + 1, column := c.column + 1 }

/-- Passes several characters of the line. -/
def skipMany (c : Cursor) (n : Nat) : Cursor :=
  { c with rest := c.rest.drop n, index := c.index + n, column := c.column + n }

/-- Passes a line break, and gives what it means as text. -/
def takeBreak (c : Cursor) : List Char × Cursor :=
  match c.rest with
  | '\r' :: '\n' :: rest => (['\n'], ⟨rest, c.index + 2, c.line + 1, 0⟩)
  | b :: rest =>
    let text := if b.toNat = 0x2028 ∨ b.toNat = 0x2029 then [b] else ['\n']
    (text, ⟨rest, c.index + 1, c.line + 1, 0⟩)
  | [] => ([], c)

/-- Passes a line break. -/
def skipBreak (c : Cursor) : Cursor :=
  c.takeBreak.2

/-- Passes characters of the line as long as they satisfy `p`, and gives them. -/
def takeWhile (c : Cursor) (p : Char → Bool) : List Char × Cursor :=
  let taken := c.rest.takeWhile p
  (taken, c.skipMany taken.length)

/-- Passes characters of the line as long as they satisfy `p`. -/
def skipWhile (c : Cursor) (p : Char → Bool) : Cursor :=
  (c.takeWhile p).2

/-- Whether `---` or `...` stands alone at the beginning of a line. -/
def isAtMark (c : Cursor) (x : Char) : Bool :=
  c.column = 0 && c.peekAt 0 == some x && c.peekAt 1 == some x && c.peekAt 2 == some x &&
    isGap (c.peekAt 3)

/-- Whether a mark of the beginning or end of a document comes next. -/
def isAtDocumentMark (c : Cursor) : Bool :=
  c.isAtMark '-' || c.isAtMark '.'

end Cursor
end Yaml
end ApiContract
