/-!
# Blanks

Characters with the Unicode property `White_Space`, and texts without blanks at their ends.
-/

namespace ApiContract
namespace Text

/-- Whether a character is white space. -/
def isBlank (c : Char) : Bool :=
  let n := c.toNat
  (9 ≤ n && n ≤ 13) || n = 0x20 || n = 0x85 || n = 0xA0 || n = 0x1680 ||
    (0x2000 ≤ n && n ≤ 0x200A) || n = 0x2028 || n = 0x2029 || n = 0x202F || n = 0x205F ||
    n = 0x3000

/-- Drops elements at the end that satisfy `p`. -/
def dropWhileEnd {α : Type} (p : α → Bool) (s : List α) : List α :=
  (s.reverse.dropWhile p).reverse

/-- A text without blanks at its beginning and end. -/
def trim (s : List Char) : List Char :=
  dropWhileEnd isBlank (s.dropWhile isBlank)

/-- A text in small letters, as far as ASCII goes. -/
def asciiLower (s : String) : String :=
  String.ofList (s.toList.map Char.toLower)

/-- Whether two texts differ at most in the case of ASCII letters. -/
def sameIgnoringCase (s t : String) : Bool :=
  asciiLower s == asciiLower t

end Text
end ApiContract
