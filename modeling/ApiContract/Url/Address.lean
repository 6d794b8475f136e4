import ApiContract.Decimal.Whole
import ApiContract.Json.Value
import ApiContract.Text.Pieces

/-!
# Numeric addresses

Addresses of four bytes, written as one to four numbers, and addresses of eight groups of sixteen
bits, written in hexadecimal digits with colons between them.

**Results:** `Address4.ofText?` and `Address6.ofText?` read an address; `text` writes it in its
usual form, in which the first longest run of at least two zero groups is two colons.
-/

namespace ApiContract
namespace Url

/-! ## Four bytes -/

/-- Pieces of a host between dots, without an empty one at the end. -/
def dottedPieces (s : List Char) : List (List Char) :=
  match (Text.pieces (· = '.') s).reverse with
  | [] :: p :: ps => (p :: ps).reverse
  | ps => ps.reverse

/-- A number in base ten, eight (behind a zero) or sixteen (behind `0x`). -/
def number? (s : List Char) : Option Nat :=
  match s with
  | [] => none
  | ['0'] => some 0
  | '0' :: x :: rest =>
    if x = 'x' ∨ x = 'X' then if rest.isEmpty then some 0 else Decimal.digits? 16 rest
    else Decimal.digits? 8 (x :: rest)
  | s => Decimal.digits? 10 s

/-- Whether a host is meant as an address: its last piece is a number, or has digits only. -/
def endsInNumber (s : List Char) : Bool :=
  match (dottedPieces s).getLast? with
  | some last => (!last.isEmpty && last.all Char.isDigit) || (number? last).isSome
  | none => false

/-- An address of four bytes as one number. -/
structure Address4 where
  value : Nat
deriving DecidableEq, Inhabited

namespace Address4

/-- The address of numbers, of which the last fills all bytes that are left. -/
def ofNumbers? (ns : List Nat) : Option Address4 :=
  match ns.reverse with
  | [] => none
  | last :: before =>
    let left := 4 - before.length
    if before.length < 4 ∧ before.all (· < 256) ∧ last < Nat.pow 256 left then
      some ⟨before.reverse.foldl (fun a n => a * 256 + n) 0 * Nat.pow 256 left + last⟩
    else none

/-- Reads an address. -/
def ofText? (s : List Char) : Option Address4 :=
  ((dottedPieces s).mapM number?).bind ofNumbers?

/-- The four bytes. -/
def bytes (a : Address4) : List Nat :=
  [a.value / 0x1000000 % 256, a.value / 0x10000 % 256, a.value / 0x100 % 256, a.value % 256]

/-- An address as text. -/
def text (a : Address4) : String :=
  String.intercalate "." (a.bytes.map toString)

end Address4

/-! ## Eight groups -/

/-- An address of eight groups of sixteen bits. -/
structure Address6 where
  groups : List Nat
deriving DecidableEq, Inhabited

namespace Address6

/-- A group of one to four hexadecimal digits. -/
def group? (s : List Char) : Option Nat :=
  if s.length ≤ 4 then Decimal.digits? 16 s else none

/-- One of four decimal numbers at the end of an address, without zeros at its beginning. -/
def byte? (s : List Char) : Option Nat :=
  if s.length ≤ 3 ∧ (s.head? ≠ some '0' ∨ s = ['0']) then
    (Decimal.digits? 10 s).filter (· < 256)
  else none

/-- The groups of pieces between colons; the last piece may be four decimal numbers. -/
def groupsOf? : List (List Char) → Option (List Nat)
  | [] => some []
  | [p] =>
    match group? p with
    | some g => some [g]
    | none =>
      match (Text.pieces (· = '.') p).mapM byte? with
      | some [a, b, c, d] => some [256 * a + b, 256 * c + d]
      | _ => none
  | p :: ps =>
    match group? p, groupsOf? ps with
    | some g, some gs => some (g :: gs)
    | _, _ => none

/-- The pieces of a side of two colons in a row, which has none if it is empty. -/
def side (s : List Char) : List (List Char) :=
  if s.isEmpty then [] else Text.pieces (· = ':') s

/-- A text cut at its first two colons in a row. -/
def cutRun? : List Char → Option (List Char × List Char)
  | ':' :: ':' :: rest => some ([], rest)
  | c :: rest => (cutRun? rest).map fun (a, b) => (c :: a, b)
  | [] => none

/-- Reads an address.  Two colons in a row stand, once, for as many zero groups as are missing. -/
def ofText? (s : List Char) : Option Address6 :=
  match cutRun? s with
  | none => ((groupsOf? (Text.pieces (· = ':') s)).filter (·.length = 8)).map (⟨·⟩)
  | some (a, b) =>
    match (side a).mapM group?, groupsOf? (side b) with
    | some front, some back =>
      let used := front.length + back.length
      if used < 8 then some ⟨front ++ List.replicate (8 - used) 0 ++ back⟩ else none
    | _, _ => none

/-- Length of the zero groups at the beginning. -/
def zeroRun (gs : List Nat) : Nat :=
  (gs.takeWhile (· = 0)).length

/-- Where the first longest run of zero groups begins, and its length. -/
def longestRun : List Nat → Nat × Nat
  | [] => (0, 0)
  | g :: gs =>
    let here := zeroRun (g :: gs)
    let (start, length) := longestRun gs
    if here ≥ length then (0, here) else (start + 1, length)

/-- A group in hexadecimal digits, without zeros at the beginning. -/
def groupText (g : Nat) : List Char :=
  if g < 16 then [Json.hexChar g]
  else
    [g / 4096 % 16, g / 256 % 16, g / 16 % 16, g % 16].dropWhile (· = 0) |>.map Json.hexChar

/-- Groups with colons between them. -/
def joined (gs : List Nat) : List Char :=
  List.intercalate [':'] (gs.map groupText)

/-- An address as text. -/
def text (a : Address6) : String :=
  let (start, length) := longestRun a.groups
  String.ofList (if length < 2 then joined a.groups
    else joined (a.groups.take start) ++ [':', ':'] ++ joined (a.groups.drop (start + length)))

end Address6
end Url
end ApiContract
