import ApiContract.Text.Printable

/-!
# Texts in messages

A text in a message stands between double quotes; quotes, backslashes and the usual controls have
short escapes, other characters that cannot be seen are given by their number in braces.
-/

namespace ApiContract
namespace Text

/-- How a message shows one character of a text. -/
def shownChar (c : Char) : List Char :=
  if c.toNat = 0 then ['\\', '0']
  else if c = '\t' then ['\\', 't']
  else if c = '\n' then ['\\', 'n']
  else if c = '\r' then ['\\', 'r']
  else if c = '"' then ['\\', '"']
  else if c = '\\' then ['\\', '\\']
  else if isUnprintable c then
    ['\\', 'u', '\x7b'] ++ Nat.toDigits 16 c.toNat ++ ['\x7d']
  else [c]

/-- How a message shows a text. -/
def shown (s : String) : String :=
  String.ofList ('"' :: (s.toList.flatMap shownChar ++ ['"']))

end Text
end ApiContract
