import ApiContract.Decimal.Shortest
import ApiContract.Json.Numeral

/-!
# JSON values and their compact text

A value keeps the order of its members.  Its compact text has no blanks; a string is written with
the short escapes and `\u00xx` for the other control characters, and every other character as it is.
-/

namespace ApiContract
namespace Json

/-- A JSON value. -/
inductive Value
  | null
  | flag (b : Bool)
  | number (n : Number)
  | text (s : String)
  | list (items : List Value)
  | record (members : List (String × Value))
deriving Inhabited

namespace Value

/-- A whole number. -/
def ofInt (n : Int) : Value :=
  .number (.whole n)

/-- A whole number that is not negative. -/
def ofNat (n : Nat) : Value :=
  .number (.whole n)

/-- The value of a text that may be absent. -/
def ofText? : Option String → Value
  | some s => .text s
  | none => .null

/-- The member of a name; of several the last. -/
def member? (name : String) : Value → Option Value
  | .record members => (members.reverse.find? (·.1 == name)).map (·.2)
  | _ => none

end Value

/-! ## Printing -/

/-- A hexadecimal digit in small letters. -/
def hexChar (n : Nat) : Char :=
  if n < 10 then Char.ofNat (n + 48) else Char.ofNat (n + 87)

/-- The written form of one character inside a string. -/
def escapeChar (c : Char) : List Char :=
  if c = '"' then ['\\', '"']
  else if c = '\\' then ['\\', '\\']
  else if c.toNat = 8 then ['\\', 'b']
  else if c.toNat = 12 then ['\\', 'f']
  else if c = '\n' then ['\\', 'n']
  else if c = '\r' then ['\\', 'r']
  else if c = '\t' then ['\\', 't']
  else if c.toNat < 32 then ['\\', 'u', '0', '0', hexChar (c.toNat / 16), hexChar (c.toNat % 16)]
  else [c]

/-- A quoted string. -/
def quote (s : List Char) : List Char :=
  '"' :: (s.flatMap escapeChar ++ ['"'])

/-- The text of a positive double: positional between `1e-5` and `1e16`, always with a point there,
else scientific. -/
def realChars (bits : UInt64) : List Char :=
  let (digits, point) := Decimal.significant bits
  let n : Int := digits.length
  let zeros (k : Int) : List Char := List.replicate k.toNat '0'
  let exponent : List Char := 'e' :: (toString (point - 1)).toList
  if n ≤ point ∧ point ≤ 16 then digits ++ zeros (point - n) ++ ['.', '0']
  else if 0 < point ∧ point ≤ 16 then
    digits.take point.toNat ++ '.' :: digits.drop point.toNat
  else if -5 < point ∧ point ≤ 0 then '0' :: '.' :: (zeros (-point) ++ digits)
  else
    match digits with
    | d :: e :: more => d :: '.' :: e :: more ++ exponent
    | _ => digits ++ exponent

/-- The text of a number.  What is no finite number is written as `null`. -/
def Number.chars : Number → List Char
  | .whole n => (Numeral.ofInt n).plainChars
  | .real x =>
    let bits := x.toBits
    let positive := UInt64.ofNat (bits.toNat % Nat.pow 2 63)
    let body :=
      if positive.toNat ≥ 0x7ff0000000000000 then ['n', 'u', 'l', 'l']
      else if positive.toNat = 0 then ['0', '.', '0']
      else realChars positive
    if bits.toNat ≥ Nat.pow 2 63 ∧ positive.toNat < 0x7ff0000000000000 then '-' :: body else body

mutual

/-- The compact text of a value, over characters. -/
def Value.chars : Value → List Char
  | .null => ['n', 'u', 'l', 'l']
  | .flag true => ['t', 'r', 'u', 'e']
  | .flag false => ['f', 'a', 'l', 's', 'e']
  | .number n => n.chars
  | .text s => quote s.toList
  | .list items => '[' :: (itemChars items ++ [']'])
  | .record members => '\x7b' :: (memberChars members ++ ['\x7d'])

/-- Items separated by commas. -/
def itemChars : List Value → List Char
  | [] => []
  | v :: vs =>
    match vs with
    | [] => v.chars
    | _ => v.chars ++ ',' :: itemChars vs

/-- Members separated by commas. -/
def memberChars : List (String × Value) → List Char
  | [] => []
  | (k, v) :: ms =>
    match ms with
    | [] => quote k.toList ++ ':' :: v.chars
    | _ => quote k.toList ++ ':' :: (v.chars ++ ',' :: memberChars ms)

end

/-- The compact text of a value. -/
def Value.compact (v : Value) : String :=
  String.ofList v.chars

/-! ## Member order -/

/-- Inserts a member by the order of names, replacing one of the same name. -/
def insertMember (name : String) (v : Value) : List (String × Value) → List (String × Value)
  | [] => [(name, v)]
  | (k, w) :: rest =>
    if name = k then (k, v) :: rest
    else if name < k then (name, v) :: (k, w) :: rest
    else (k, w) :: insertMember name v rest

mutual

/-- The value with the members of every record in the order of their names, of equal names only the
last. -/
def Value.sorted : Value → Value
  | .list items => .list (sortedItems items)
  | .record members => .record (sortedMembers [] members)
  | v => v

/-- Sorts inside every item. -/
def sortedItems : List Value → List Value
  | [] => []
  | v :: vs => v.sorted :: sortedItems vs

/-- Adds members, sorted inside, to members in order. -/
def sortedMembers (done : List (String × Value)) : List (String × Value) → List (String × Value)
  | [] => done
  | (k, v) :: rest => sortedMembers (insertMember k v.sorted done) rest

end

end Json
end ApiContract
