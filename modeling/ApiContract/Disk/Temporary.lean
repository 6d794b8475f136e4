import ApiContract.Disk.Basic

/-!
# Temporary files

Files under new names in one directory.

**Results:** `makeTemporary` makes an empty file where nothing stood, or fails and changes nothing.
-/

namespace ApiContract
namespace Disk

/-- Where temporary files stand. -/
def temporaryPlace : Place :=
  ["tmp"]

/-- A working directory with nothing in it, beside the directory of temporary files. -/
def blank (home : Place) : Disk :=
  (({ home } : Disk).plantDirectory home).plantDirectory temporaryPlace

/-- The name of a temporary file: what was asked for, with a number of six digits or more
between. -/
def temporaryName (start ending : String) (n : Nat) : String :=
  start ++ toString (100000 + n) ++ ending

/-- The number of the first name that is free. -/
def freeNumber? (d : Disk) (start ending : String) : Option Nat :=
  (List.range (d.entries.length + 1)).find? fun n =>
    (d.at? (temporaryPlace ++ [temporaryName start ending n])).isNone

/-- Makes an empty file under a name that is free.  A name with a slash leads into a directory that
is not there. -/
def makeTemporary (d : Disk) (start ending : String) : Except Fault (Disk × FilePath) :=
  match d.freeNumber? start ending with
  | none => .error .taken
  | some n =>
    let name := temporaryName start ending n
    let path : FilePath := ⟨"/" ++ String.intercalate "/" (temporaryPlace ++ [name])⟩
    if name.toList.contains '/' then .error .missing
    else
      match d.write path .empty with
      | .ok d => .ok (d, path)
      | .error fault => .error fault

end Disk
end ApiContract
