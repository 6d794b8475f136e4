import ApiContract.Assoc
import ApiContract.Bytes
import ApiContract.Text.Blank

/-!
# Header fields

Header fields in their order, each with the bytes of its value.  Names are kept in small letters, so
that the letter case of a name never matters.

**Results:** `get?` gives the first value of a name; `append` adds a value, `insert` puts one in
place of all values of its name, and so changes what `get?` gives for that name only.
-/

namespace ApiContract

/-- Whether a character may stand in a token: an ASCII letter or digit, or one of fifteen marks. -/
def isTokenChar (c : Char) : Bool :=
  c.isAlphanum || "!#$%&'*+-.^_`|~".toList.contains c

/-- Header fields in their order; names are in small letters. -/
structure Headers where
  entries : List (String × ByteArray) := []
deriving DecidableEq, Inhabited

namespace Headers

/-- The greatest length of a name. -/
def nameLimit : Nat :=
  65535

/-- A name in small letters, if it is the name of a header field. -/
def name? (s : String) : Option String :=
  let cs := s.toList
  if !cs.isEmpty && cs.all isTokenChar && cs.length ≤ nameLimit then some (Text.asciiLower s)
  else none

/-- Whether a byte may stand in the value of a header field. -/
def isValueByte (b : UInt8) : Bool :=
  b = 9 || 32 ≤ b && b ≠ 127

/-- Whether bytes may be the value of a header field. -/
def isValue (v : ByteArray) : Bool :=
  (Bytes.toList v).all isValueByte

/-- Whether a byte is visible: an ASCII character that is no control, or a tab. -/
def isVisible (b : UInt8) : Bool :=
  b = 9 || 32 ≤ b && b < 127

/-- The text of a value, all bytes of which are visible. -/
def valueText? (v : ByteArray) : Option String :=
  let bytes := Bytes.toList v
  if bytes.all isVisible then some (String.ofList (bytes.map fun b => Char.ofNat b.toNat)) else none

/-- The first value of a name. -/
def get? (h : Headers) (name : String) : Option ByteArray :=
  Assoc.get? h.entries (Text.asciiLower name)

/-- Adds a value. -/
def append (h : Headers) (name : String) (value : ByteArray) : Headers :=
  ⟨h.entries ++ [(Text.asciiLower name, value)]⟩

/-- Puts a value in place of all values of its name. -/
def insert (h : Headers) (name : String) (value : ByteArray) : Headers :=
  ⟨Assoc.drop (Text.asciiLower name) h.entries ++ [(Text.asciiLower name, value)]⟩

/-- Header fields with the given names and values. -/
def ofList (fields : List (String × ByteArray)) : Headers :=
  fields.foldl (fun h f => h.append f.1 f.2) {}

/-- The media type that the first content type names, without parameters and in small letters. -/
def contentType? (h : Headers) : Option String :=
  ((h.get? "content-type").bind valueText?).bind fun s =>
    let essence := Text.trim (s.toList.takeWhile (· ≠ ';'))
    if essence.isEmpty then none else some (Text.asciiLower (String.ofList essence))

/-! ## Looking up -/

/-- After a value is put to a name, the name has it, in any letter case. -/
theorem get?_insert_of_eq {name name' : String} (h : Headers) (value : ByteArray)
    (same : Text.asciiLower name' = Text.asciiLower name) :
    (h.insert name value).get? name' = some value := by
  simp only [get?, insert, same, Assoc.get?_append, Assoc.get?_drop_self]
  simp [Assoc.get?]

end Headers
end ApiContract
