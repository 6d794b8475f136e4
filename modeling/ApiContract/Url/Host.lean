import ApiContract.Text.Case
import ApiContract.Text.Percent
import ApiContract.Text.Punycode
import ApiContract.Url.Address

/-!
# Hosts

**Input:** the text of a host as a URL gives it.

**Results:** `Host.ofText?` reads the host of a well-known scheme, whose name may be percent-encoded
and may hold characters beyond ASCII: it is brought to small letters, and a label with such
characters is written in ASCII.  A name whose last label is a number is an address or no host.
`Host.ofPlainText?` reads the host of any other scheme, which is kept as it is written.
-/

namespace ApiContract
namespace Url

/-- A host. -/
inductive Host
  | name (s : String)
  | address4 (a : Address4)
  | address6 (a : Address6)
deriving DecidableEq, Inhabited

namespace Host

/-- A host as text. -/
def text : Host → String
  | name s => s
  | address4 a => a.text
  | address6 a => "[" ++ a.text ++ "]"

/-- The address between square brackets; `none` if the first bracket is not closed at the end. -/
def bracketed? (s : List Char) : Option Host :=
  if s.getLast? = some ']' then (Address6.ofText? s.dropLast).map address6 else none

/-- Whether a character is a control. -/
def isControl (c : Char) : Bool :=
  c.toNat < 0x20 || c.toNat = 0x7F

/-! ## Hosts of well-known schemes -/

/-- Characters of a name in their usual form: small letters, full-width forms as ASCII, each kind of
full stop as a dot, and nothing for characters that cannot be seen. -/
def usualForm (c : Char) : List Char :=
  let n := c.toNat
  if n = 0x3002 ∨ n = 0xFF0E ∨ n = 0xFF61 then ['.']
  else if 0xFF01 ≤ n ∧ n ≤ 0xFF5E then Text.small (Char.ofNat (n - 0xFEE0))
  else if n = 0xAD ∨ n = 0x200B ∨ n = 0x2060 ∨ n = 0xFEFF then []
  else Text.small c

/-- Whether an ASCII character has no place in a name. -/
def isForbidden (c : Char) : Bool :=
  isControl c || " #%/:<>?@[\\]^|".toList.contains c

/-- A label in ASCII characters. -/
def asciiLabel (label : List Char) : List Char :=
  if label.all (·.toNat < 0x80) then label else "xn--".toList ++ Text.Punycode.encode label

/-- A name in ASCII characters. -/
def asciiName? (s : String) : Option (List Char) :=
  let labels := (Text.pieces (· = '.') (s.toList.flatMap usualForm)).map asciiLabel
  let name := List.intercalate ['.'] labels
  if name.isEmpty ∨ name.any isForbidden then none else some name

/-- Reads the host of a well-known scheme. -/
def ofText? (s : List Char) : Option Host :=
  match s with
  | '[' :: rest => bracketed? rest
  | s => do
    let name ← asciiName? (← Bytes.text? (Text.Percent.decode (Bytes.ofChars s)))
    if endsInNumber name then (Address4.ofText? name).map address4
    else some (.name (String.ofList name))

/-! ## Hosts of other schemes -/

/-- Whether a character has no place in a host that is kept as it is written. -/
def isForbiddenPlain (c : Char) : Bool :=
  "\x00\t\n\r #/:<>?@[\\]^|".toList.contains c

/-- Reads the host of a scheme that is not well known. -/
def ofPlainText? (s : List Char) : Option Host :=
  match s with
  | '[' :: rest => bracketed? rest
  | s =>
    if s.any isForbiddenPlain then none
    else some (.name (String.ofList (Text.Percent.encode isControl s)))

end Host
end Url
end ApiContract
