import ApiContract.Code.Token

/-!
# Code as a tree, and its normal form

Code with matching delimiters is a list of trees.

**Results:** `normal` drops what two layouts of the same code may differ in:

* blanks at the end of documentation lines;
* braces around an arm of a `match` that holds a single expression, or a single `return`;
* commas before a closing delimiter.
-/

namespace ApiContract
namespace Code

/-- Pairs of delimiters. -/
inductive Delimiter
  | paren
  | bracket
  | brace
deriving DecidableEq, Inhabited

namespace Delimiter

/-- The delimiter that opens. -/
def opening : Delimiter → Char
  | .paren => '('
  | .bracket => '['
  | .brace => '\x7b'

/-- The delimiter that closes. -/
def closing : Delimiter → Char
  | .paren => ')'
  | .bracket => ']'
  | .brace => '\x7d'

/-- The pair that a character opens. -/
def ofOpening? (c : Char) : Option Delimiter :=
  [paren, bracket, brace].find? (·.opening == c)

/-- The pair that a character closes. -/
def ofClosing? (c : Char) : Option Delimiter :=
  [paren, bracket, brace].find? (·.closing == c)

end Delimiter

/-- A token, or code between delimiters. -/
inductive Tree
  | leaf (t : Token)
  | group (d : Delimiter) (body : List Tree)
deriving Inhabited

mutual

/-- The tokens of a tree. -/
def Tree.tokens : Tree → Code
  | .leaf t => [t]
  | .group d body => .mark d.opening :: (treeTokens body ++ [.mark d.closing])

/-- The tokens of trees. -/
def treeTokens : List Tree → Code
  | [] => []
  | t :: ts => t.tokens ++ treeTokens ts

end

/-- Trees that are being read: open delimiters, innermost first, each with the trees before it in
reverse order, and the trees of the innermost in reverse order. -/
structure Nest where
  /-- Open delimiters and what stands before them. -/
  outer : List (Delimiter × List Tree) := []
  /-- What has been read inside the innermost. -/
  inner : List Tree := []

/-- Takes a token. -/
def Nest.step (n : Nest) (t : Token) : Option Nest :=
  match t with
  | .mark c =>
    match Delimiter.ofOpening? c, Delimiter.ofClosing? c with
    | some d, _ => some ⟨(d, n.inner) :: n.outer, []⟩
    | none, some d =>
      match n.outer with
      | (e, before) :: outer =>
        if d = e then some ⟨outer, .group d n.inner.reverse :: before⟩ else none
      | [] => none
    | none, none => some { n with inner := .leaf t :: n.inner }
  | t => some { n with inner := .leaf t :: n.inner }

/-- The trees of code, if its delimiters match. -/
def trees? (c : Code) : Option (List Tree) :=
  (c.foldlM Nest.step {}).bind fun n => if n.outer.isEmpty then some n.inner.reverse else none

/-! ## Normal form -/

/-- Whether a tree is the given punctuation. -/
def Tree.isMark (c : Char) : Tree → Bool
  | .leaf (.mark d) => c = d
  | _ => false

/-- Whether a tree is the given word. -/
def Tree.isWord (s : String) : Tree → Bool
  | .leaf (.word w) => s == w
  | _ => false

/-- What an arm of a `match` holds without its braces, if they can be left out. -/
def bareArm? (body : List Tree) : Option (List Tree) :=
  let stops := body.filter (Tree.isMark ';')
  if body.isEmpty then none
  else if stops.isEmpty then some body
  else if body.head?.any (Tree.isWord "return") && stops.length == 1 &&
      body.getLast?.any (Tree.isMark ';') then some body.dropLast
  else none

/-- Drops a comma at the beginning. -/
def dropComma : List Tree → List Tree
  | t :: ts => if t.isMark ',' then ts else t :: ts
  | [] => []

/-- Takes the braces off the arms of a `match`. -/
def bareArms : Nat → List Tree → List Tree
  | 0, ts => ts
  | bound + 1, .leaf (.mark '=') :: .leaf (.mark '>') :: .group .brace body :: rest =>
    let rest := bareArms bound (dropComma rest)
    let arrow := [Tree.leaf (.mark '='), .leaf (.mark '>')]
    match bareArm? body with
    | some bare => arrow ++ bare ++ .leaf (.mark ',') :: rest
    | none => arrow ++ .group .brace body :: rest
  | bound + 1, t :: ts => t :: bareArms bound ts
  | _ + 1, [] => []

/-- Drops commas at the end and before a closing angle. -/
def dropCommas : List Tree → List Tree
  | [] => []
  | t :: ts =>
    let rest := dropCommas ts
    if t.isMark ',' && (ts.isEmpty || ts.head?.any (Tree.isMark '>')) then rest else t :: rest

/-- Drops blanks at the end of documentation lines. -/
def trimDocs : List Tree → List Tree
  | [.leaf (.word "doc"), .leaf (.mark '='), .leaf (.text s)] =>
    let trimmed := (s.toList.reverse.dropWhile (· = ' ')).reverse
    [.leaf (.word "doc"), .leaf (.mark '='), .leaf (.text (String.ofList trimmed))]
  | ts => ts

/-- The normal form of trees whose groups are in normal form. -/
def normalList (ts : List Tree) : List Tree :=
  bareArms ts.length ts

mutual

/-- Takes braces off arms inside a tree, inner ones first. -/
def Tree.bare : Tree → Tree
  | .leaf t => .leaf t
  | .group d body => .group d (normalList (bareTrees body))

/-- Takes braces off arms inside trees. -/
def bareTrees : List Tree → List Tree
  | [] => []
  | t :: ts => t.bare :: bareTrees ts

end

mutual

/-- Drops commas and blanks inside a tree. -/
def Tree.clean : Tree → Tree
  | .leaf t => .leaf t
  | .group .bracket body => .group .bracket (dropCommas (trimDocs (cleanTrees body)))
  | .group d body => .group d (dropCommas (cleanTrees body))

/-- Drops commas and blanks inside trees. -/
def cleanTrees : List Tree → List Tree
  | [] => []
  | t :: ts => t.clean :: cleanTrees ts

end

/-- The normal form of trees. -/
def normalTrees (ts : List Tree) : List Tree :=
  dropCommas (cleanTrees (normalList (bareTrees ts)))

/-- The normal form of code; code whose delimiters do not match is left as it is. -/
def normal (c : Code) : Code :=
  match trees? c with
  | some ts => treeTokens (normalTrees ts)
  | none => c

end Code
end ApiContract
