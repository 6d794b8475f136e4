import ApiContract.Text.Pieces

/-!
# Paths as they are written

A path is a text: names separated by slashes.  It keeps the text it was given, so that a message
shows the path that the user wrote.  Two slashes in a row and a dot inside a path say nothing.

**Results:** the path of the directory around a path, the last name and its extension, another
extension, and one path continued by another.
-/

namespace ApiContract

/-- A path as it is written. -/
structure FilePath where
  text : String
deriving DecidableEq, Inhabited

namespace FilePath

/-- Pieces with slashes between them. -/
def joined (ps : List (List Char)) : List Char :=
  List.intercalate ['/'] ps

/-- Whether a piece says nothing. -/
def isSilent (p : List Char) : Bool :=
  p.isEmpty || p = ['.']

/-- Whether a path starts at the root. -/
def isAbsolute (p : FilePath) : Bool :=
  p.text.toList.head? = some '/'

/-- How many characters at the beginning say where a path starts: the root's slash, or a dot. -/
def startLength (cs : List Char) : Nat :=
  match cs with
  | '/' :: _ => 1
  | ['.'] => 1
  | '.' :: '/' :: _ => 1
  | _ => 0

/-- What a path says about its start. -/
def start (p : FilePath) : List Char :=
  p.text.toList.take (startLength p.text.toList)

/-- Pieces behind the start. -/
def body (p : FilePath) : List (List Char) :=
  Text.pieces (· = '/') (p.text.toList.drop (startLength p.text.toList))

/-- Names of a path, in order. -/
def names (p : FilePath) : List String :=
  (p.body.filter (!isSilent ·)).map String.ofList

/-- Whether the last piece says nothing, so that the path can only name a directory. -/
def endsSilent (p : FilePath) : Bool :=
  p.body.getLast?.all isSilent

/-- Whether the last piece that is not empty is one or two dots. -/
def endsInDots (p : FilePath) : Bool :=
  match p.body.reverse.dropWhile List.isEmpty with
  | piece :: _ => piece = ['.'] || piece = ['.', '.']
  | [] => false

/-- The last name of a path, and the pieces before it, the nearest first. -/
def last? (p : FilePath) : Option (List Char × List (List Char)) :=
  match p.body.reverse.dropWhile isSilent with
  | name :: before => some (name, before)
  | [] => none

/-- The path of the directory around a path. -/
def parent? (p : FilePath) : Option FilePath :=
  match p.last? with
  | some (_, before) =>
    some ⟨String.ofList (p.start ++ joined (before.dropWhile isSilent).reverse)⟩
  | none => if p.start = ['.'] then some ⟨""⟩ else none

/-- A name cut before its last dot, and what follows the dot.  A dot at the beginning does not
count. -/
def cutName (name : List Char) : List Char × Option (List Char) :=
  let rev := name.reverse
  let stem := ((rev.dropWhile (· ≠ '.')).drop 1).reverse
  if stem.isEmpty then (name, none) else (stem, some (rev.takeWhile (· ≠ '.')).reverse)

/-- What follows the last dot of the last name. -/
def extension? (p : FilePath) : Option String :=
  match p.last? with
  | some (name, _) => if name = ['.', '.'] then none else (cutName name).2.map String.ofList
  | none => none

/-- The path with another extension in its last name. -/
def withExtension (p : FilePath) (extension : String) : FilePath :=
  match p.last? with
  | some (name, before) =>
    if name = ['.', '.'] then p
    else
      let stem := (cutName name).1 ++ '.' :: extension.toList
      ⟨String.ofList (p.start ++ joined (before.reverse ++ [stem]))⟩
  | none => p

/-- A path continued by another; one that starts at the root stands alone. -/
def join (p q : FilePath) : FilePath :=
  if q.isAbsolute then q
  else if p.text.isEmpty ∨ p.text.toList.getLast? = some '/' then ⟨p.text ++ q.text⟩
  else ⟨p.text ++ "/" ++ q.text⟩

end FilePath
end ApiContract
