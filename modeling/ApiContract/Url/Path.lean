import ApiContract.Text.Percent
import ApiContract.Text.Pieces

/-!
# Paths of URLs

The path of a URL is a list of segments; as text, a slash stands before each.  A path without
segments and one with a single empty segment differ as texts, but a segment that is put to either of
them is the only one afterwards.

**Results:** `Segments.ofText` reads a path, in which `.` and `..` have their usual meaning and are
gone afterwards, `push` puts a segment to the end, and `text` writes a path.
-/

namespace ApiContract
namespace Url

/-- A segment as it is written. -/
abbrev Segment := List Char

/-- Segments of a path in their order. -/
abbrev Segments := List Segment

/-- How a scheme treats host and path. -/
inductive Kind
  /-- Files: the host may be missing, and the path may begin with a drive letter. -/
  | file
  /-- Well-known schemes, which always have a host and a path. -/
  | wellKnown
  | other
deriving DecidableEq, Inhabited

/-- Whether backslashes count as slashes. -/
def Kind.isSpecial (k : Kind) : Bool :=
  k ≠ .other

/-- Whether a character is a slash. -/
def Kind.isSlash (k : Kind) (c : Char) : Bool :=
  c = '/' || k.isSpecial && c = '\\'

/-- Whether a character must be encoded wherever it stands. -/
def isUnsafe (c : Char) : Bool :=
  c.toNat ≤ 0x20 || c.toNat = 0x7F || "\"<>`".toList.contains c

/-- Whether a character must be encoded in a path that is read. -/
def isUnsafeInPath (c : Char) : Bool :=
  isUnsafe c || "#?\x7b\x7d".toList.contains c

/-- Whether a character must be encoded in a segment that is put to a path. -/
def Kind.isUnsafeInSegment (k : Kind) (c : Char) : Bool :=
  isUnsafeInPath c || c = '%' || k.isSlash c

namespace Segment

/-- A segment with encoded dots decoded and nothing else changed. -/
def dots (s : Segment) : Segment :=
  match s with
  | '%' :: '2' :: e :: rest =>
    if e = 'e' ∨ e = 'E' then '.' :: dots rest else '%' :: '2' :: e :: rest
  | '.' :: rest => '.' :: dots rest
  | s => s

/-- Whether a segment is a drive letter: a letter and a colon, or a bar in its place. -/
def isDrive (s : Segment) : Bool :=
  match s with
  | [c, d] => c.isAlpha && (d = ':' || d = '|')
  | _ => false

end Segment

namespace Segments

/-- Segments without the last one, unless that is a drive letter. -/
def shorten (ps : Segments) : Segments :=
  match ps.getLast? with
  | some p => if p.isDrive then ps else ps.dropLast
  | none => []

/-- Adds a segment behind others; `isLast` says that no slash follows it. -/
def close (k : Kind) (ps : Segments) (s : Segment) (isLast : Bool) : Segments :=
  if s.dots = ['.', '.'] then if isLast then shorten ps ++ [[]] else shorten ps
  else if s.dots = ['.'] then if isLast then ps ++ [[]] else ps
  else if k = .file ∧ ps = [] ∧ s.isDrive then ps ++ [s.take 1 ++ [':']]
  else ps ++ [s]

/-- A path in its usual form: that of a file has no empty segments at its beginning. -/
def settled (k : Kind) (ps : Segments) : Segments :=
  if k = .file then
    match ps.dropWhile (·.isEmpty) with
    | [] => [[]]
    | ps => ps
  else ps

/-- Adds the segments of a text behind others. -/
def closeAll (k : Kind) (ps : Segments) : List Segment → Segments
  | [] => ps
  | [s] => close k ps s true
  | s :: rest => closeAll k (close k ps s false) rest

/-- The segments of a text, in which a slash may stand first. -/
def ofText (k : Kind) (s : List Char) : Segments :=
  let body :=
    match s with
    | c :: rest => if k.isSlash c then rest else s
    | [] => []
  settled k (closeAll k [] ((Text.pieces k.isSlash body).map (Text.Percent.encode isUnsafeInPath)))

/-- A path as text. -/
def text (ps : Segments) : List Char :=
  ps.flatMap ('/' :: ·)

/-- A path without an empty segment at its end, unless it is the only one. -/
def withoutEmptyEnd (ps : Segments) : Segments :=
  match ps with
  | [_] => ps
  | _ => if ps.getLast? = some [] then ps.dropLast else ps

/-- Whether a character is passed over wherever it stands. -/
def isSkipped (c : Char) : Bool :=
  c = '\t' || c = '\n' || c = '\r'

/-- Puts a value to the end of a path.  A value of one or two dots is not put there. -/
def push (k : Kind) (ps : Segments) (value : List Char) : Segments :=
  if value = ['.'] ∨ value = ['.', '.'] then ps
  else
    let before := if ps = [[]] then [] else ps
    let s := Text.Percent.encode k.isUnsafeInSegment (value.filter (!isSkipped ·))
    settled k (close k before s true)

end Segments
end Url
end ApiContract
