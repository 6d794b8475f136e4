import ApiContract.Yaml.Cursor

/-!
# YAML scalars

**Input:** a cursor at the first character of a scalar.

**Results:** its text, with lines folded as its style asks for, and the cursor behind it; or nothing
if it is malformed.  Every loop is bounded by the number of characters left.
-/

namespace ApiContract
namespace Yaml

/-! ## Folding -/

/-- Blanks and breaks met between two words of a scalar. -/
structure Gap where
  /-- Blanks of the current line. -/
  blanks : List Char := []
  /-- The first break. -/
  first : List Char := []
  /-- Later breaks. -/
  later : List Char := []
  /-- Whether a line has ended. -/
  broken : Bool := false

/-- What a gap becomes in the text: blanks stay, one break becomes a space, more breaks lose the
first. -/
def Gap.fold (g : Gap) : List Char :=
  if g.broken then
    if g.first.head? = some '\n' then if g.later.isEmpty then [' '] else g.later
    else g.first ++ g.later
  else g.blanks

/-- Takes one more break into a gap. -/
def Gap.addBreak (g : Gap) (b : List Char) : Gap :=
  if g.broken then { g with later := g.later ++ b }
  else { g with blanks := [], first := b, broken := true }

/-- Collects blanks and breaks.  `indent?` is the column below which a tab may not stand at the
beginning of a line. -/
def takeGap (indent? : Option Nat) : Nat → Gap → Cursor → Option (Gap × Cursor)
  | 0, g, c => some (g, c)
  | bound + 1, g, c =>
    match c.peek with
    | some x =>
      if isBlank x then
        if g.broken && x = '\t' && indent?.any (c.column < ·) then none
        else
          takeGap indent? bound (if g.broken then g
            else { g with blanks := g.blanks ++ [x] }) c.skip
      else if isBreak x then
        let (b, c) := c.takeBreak
        takeGap indent? bound (g.addBreak b) c
      else some (g, c)
    | none => some (g, c)

/-! ## Quoted scalars -/

/-- Value of a hexadecimal digit. -/
def hexValue? (c : Char) : Option Nat :=
  if c.isDigit then some (c.toNat - 48)
  else if 'a' ≤ c ∧ c ≤ 'f' then some (c.toNat - 87)
  else if 'A' ≤ c ∧ c ≤ 'F' then some (c.toNat - 55)
  else none

/-- The character whose number is written in hexadecimal digits. -/
def charOfHex? (digits : List Char) : Option Char :=
  let n? := digits.foldlM (fun n c => (hexValue? c).map (n * 16 + ·)) 0
  n?.bind fun n =>
    if (0xD800 ≤ n ∧ n ≤ 0xDFFF) ∨ n > 0x10FFFF then none else some (Char.ofNat n)

/-- Reads an escape that begins at the cursor with a backslash. -/
def takeEscape (c : Cursor) : Option (Char × Cursor) :=
  let one (n : Nat) : Option (Char × Cursor) := some (Char.ofNat n, c.skipMany 2)
  let code (size : Nat) : Option (Char × Cursor) :=
    let digits := (c.rest.drop 2).take size
    if digits.length = size then (charOfHex? digits).map fun x => (x, c.skipMany (2 + size))
    else none
  match c.peekAt 1 with
  | some '0' => one 0
  | some 'a' => one 7
  | some 'b' => one 8
  | some 't' => one 9
  | some '\t' => one 9
  | some 'n' => one 10
  | some 'v' => one 11
  | some 'f' => one 12
  | some 'r' => one 13
  | some 'e' => one 27
  | some ' ' => one 32
  | some '"' => one 34
  | some '/' => one 47
  | some '\\' => one 92
  | some 'N' => one 0x85
  | some '_' => one 0xA0
  | some 'L' => one 0x2028
  | some 'P' => one 0x2029
  | some 'x' => code 2
  | some 'u' => code 4
  | some 'U' => code 8
  | _ => none

/-- Reads the words of a quoted scalar up to a gap or the closing quote.  The flag tells that an
escaped line break ended the line. -/
def takeQuotedWord (quote : Char) : Nat → Cursor → Option (List Char × Bool × Cursor)
  | 0, c => some ([], false, c)
  | bound + 1, c =>
    match c.peek with
    | none => some ([], false, c)
    | some x =>
      if isBlank x || isBreak x then some ([], false, c)
      else if quote = '\'' ∧ x = '\'' ∧ c.peekAt 1 = some '\'' then
        (takeQuotedWord quote bound (c.skipMany 2)).map fun (w, r) => ('\'' :: w, r)
      else if x = quote then some ([], false, c)
      else if quote = '"' ∧ x = '\\' then
        if (c.peekAt 1).any isBreak then some ([], true, c.skip.skipBreak)
        else
          match takeEscape c with
          | some (y, c) => (takeQuotedWord quote bound c).map fun (w, r) => (y :: w, r)
          | none => none
      else (takeQuotedWord quote bound c.skip).map fun (w, r) => (x :: w, r)

/-- Reads the lines of a quoted scalar, behind its opening quote. -/
def takeQuotedLines (quote : Char) : Nat → Cursor → Option (List Char × Cursor)
  | 0, _ => none
  | bound + 1, c =>
    if c.isAtDocumentMark || c.peek.isNone then none
    else
      match takeQuotedWord quote (c.rest.length + 1) c with
      | none => none
      | some (word, joined, c) =>
        if c.isAt quote then some (word, c.skip)
        else
          match takeGap none (c.rest.length + 1) { broken := joined } c with
          | none => none
          | some (g, c) =>
            let gap := g.fold
            (takeQuotedLines quote bound c).map fun (more, c) => (word ++ gap ++ more, c)

/-- Reads a quoted scalar. -/
def takeQuoted (c : Cursor) : Option (List Char × Cursor) :=
  match c.peek with
  | some quote => takeQuotedLines quote (c.rest.length + 1) c.skip
  | none => none

/-! ## Plain scalars -/

/-- Whether a character separates items inside brackets. -/
def isFlowMark (c : Char) : Bool :=
  c = ',' || c = '[' || c = ']' || c = '\x7b' || c = '\x7d'

/-- Reads a word of a plain scalar. -/
def takePlainWord (inFlow : Bool) : Nat → Cursor → Option (List Char × Cursor)
  | 0, c => some ([], c)
  | bound + 1, c =>
    match c.peek with
    | none => some ([], c)
    | some x =>
      let next := c.peekAt 1
      if isBlank x || isBreak x then some ([], c)
      else if inFlow && x = ':' && next.any (fun y => isFlowMark y || y = '?') then none
      else if (x = ':' && isGap next) || (inFlow && isFlowMark x) then some ([], c)
      else (takePlainWord inFlow bound c.skip).map fun (w, c) => (x :: w, c)

/-- Reads the words of a plain scalar; `gap` stands before the next one.  The flag tells whether a
line break stands behind the scalar. -/
def takePlainWords (inFlow : Bool) (indent : Nat) (gap : Gap) :
    Nat → Cursor → Option (List Char × Bool × Cursor)
  | 0, c => some ([], gap.broken, c)
  | bound + 1, c =>
    if c.isAtDocumentMark || c.isAt '#' then some ([], gap.broken, c)
    else
      match takePlainWord inFlow (c.rest.length + 1) c with
      | none => none
      | some (word, c) =>
        let before := if word.isEmpty then [] else gap.fold
        let gap : Gap := if word.isEmpty then gap else {}
        if isGap c.peek && c.peek.isSome then
          match takeGap (some indent) (c.rest.length + 1) gap c with
          | none => none
          | some (gap, c) =>
            if !inFlow && c.column < indent then some (before ++ word, gap.broken, c)
            else
              (takePlainWords inFlow indent gap bound c).map fun (more, broken, c) =>
                (before ++ word ++ more, broken, c)
        else some (before ++ word, gap.broken, c)

/-- Reads a plain scalar whose lines are indented by at least `indent`. -/
def takePlain (inFlow : Bool) (indent : Nat) (c : Cursor) : Option (List Char × Bool × Cursor) :=
  takePlainWords inFlow indent {} (c.rest.length + 1) c

/-! ## Block scalars -/

/-- Passes the indentation and the empty lines before a line of a block scalar.  Without a known
indentation the greatest one met is given too. -/
def takeBlockBreaks (indent : Nat) : Nat → Nat → List Char → Cursor →
    Option (List Char × Nat × Cursor)
  | 0, deepest, breaks, c => some (breaks, deepest, c)
  | bound + 1, deepest, breaks, c =>
    let spaces := (c.rest.takeWhile (· = ' ')).length
    let c := c.skipMany (if indent = 0 then spaces else min spaces (indent - c.column))
    let deepest := max deepest c.column
    if (indent = 0 || c.column < indent) && c.isAt '\t' then none
    else if c.peek.any isBreak then
      let (b, c) := c.takeBreak
      takeBlockBreaks indent bound deepest (breaks ++ b) c
    else some (breaks, deepest, c)

/-- How the end of a block scalar is treated. -/
inductive Chomp
  /-- All final breaks are dropped. -/
  | strip
  /-- One final break stays. -/
  | clip
  /-- All final breaks stay. -/
  | keep
deriving DecidableEq, Inhabited

/-- Reads the lines of a block scalar.  `lead` is the break that ended the line before, `breaks` the
empty lines since then. -/
def takeBlockLines (folded : Bool) (chomp : Chomp) (indent : Nat) :
    Nat → (text lead breaks : List Char) → (wasBlank : Bool) → Cursor → Option (List Char × Cursor)
  | 0, text, _, _, _, c => some (text, c)
  | bound + 1, text, lead, breaks, wasBlank, c =>
    if c.column = indent && c.peek.isSome then
      let isBlankLine := c.peek.any isBlank
      let joint :=
        if folded && lead.head? = some '\n' && !wasBlank && !isBlankLine then
          if breaks.isEmpty then [' '] else []
        else lead
      let (line, c) := c.takeWhile fun x => !isBreak x
      let (lead', c) := c.takeBreak
      match takeBlockBreaks indent (c.rest.length + 1) 0 [] c with
      | none => none
      | some (breaks', _, c) =>
        takeBlockLines folded chomp indent bound (text ++ joint ++ breaks ++ line) lead' breaks'
          isBlankLine c
    else
      let text := if chomp = .strip then text else text ++ lead
      some (if chomp = .keep then text ++ breaks else text, c)

/-- Reads the sign that says how the end is treated. -/
def takeChomp (c : Cursor) : Option (Chomp × Cursor) :=
  match c.peek with
  | some '+' => some (.keep, c.skip)
  | some '-' => some (.strip, c.skip)
  | _ => none

/-- Reads the digit that gives the indentation; `none` for a zero. -/
def takeIndentDigit (c : Cursor) : Option (Nat × Cursor) :=
  match c.peek with
  | some d => if d.isDigit then if d = '0' then none else some (d.toNat - 48, c.skip)
    else some (0, c)
  | none => some (0, c)

/-- Reads the head of a block scalar behind its first character: treatment of the end and
indentation, in either order. -/
def takeBlockHead (c : Cursor) : Option (Chomp × Nat × Cursor) :=
  match takeChomp c with
  | some (chomp, c) => (takeIndentDigit c).map fun (n, c) => (chomp, n, c)
  | none =>
    match takeIndentDigit c with
    | none => none
    | some (n, c') =>
      if n = 0 then some (.clip, 0, c)
      else
        match takeChomp c' with
        | some (chomp, c) => some (chomp, n, c)
        | none => some (.clip, n, c')

/-- Reads a block scalar inside a block indented by `parent`, which is `-1` outside all blocks. -/
def takeBlock (folded : Bool) (parent : Int) (c : Cursor) : Option (List Char × Cursor) :=
  match takeBlockHead c.skip with
  | none => none
  | some (chomp, step, c) =>
    let c := c.skipWhile isBlank
    let c := if c.isAt '#' then c.skipWhile fun x => !isBreak x else c
    if c.peek.any fun x => !isBreak x then none
    else
      let c := c.skipBreak
      let asked := if step = 0 then 0 else (max parent 0).toNat + step
      match takeBlockBreaks asked (c.rest.length + 1) 0 [] c with
      | none => none
      | some (breaks, deepest, c) =>
        let indent := if asked = 0 then max deepest (max (parent + 1) 1).toNat else asked
        takeBlockLines folded chomp indent (c.rest.length + 1) [] [] breaks false c

end Yaml
end ApiContract
