import ApiContract.Text.CaseTable

/-!
# Capitals and small letters

Full case mapping of one character, which may give several (`ß` becomes `SS`), and of the first
character of a text.  On ASCII both mappings are the ones of the core library.
-/

namespace ApiContract
namespace Text

/-- Looks a character up in a list of sequences, then in the runs. -/
def mapCase (long : Array (Nat × List Nat)) (runs : Array CaseRun) (c : Char) : List Char :=
  match long.find? (·.1 == c.toNat) with
  | some (_, cs) => cs.map Char.ofNat
  | none =>
    match runs.findSome? (·.map? c.toNat) with
    | some n => [Char.ofNat n]
    | none => [c]

/-- Capital form of a character. -/
def capital (c : Char) : List Char :=
  if c.toNat < 128 then [c.toUpper] else mapCase longCapitals capitalRuns c

/-- Small form of a character. -/
def small (c : Char) : List Char :=
  if c.toNat < 128 then [c.toLower] else mapCase longSmalls smallRuns c

/-- Capitalizes the first character. -/
def capitalizeFirst : List Char → List Char
  | [] => []
  | c :: cs => capital c ++ cs

/-- Makes the first character small. -/
def decapitalizeFirst : List Char → List Char
  | [] => []
  | c :: cs => small c ++ cs

end Text
end ApiContract
