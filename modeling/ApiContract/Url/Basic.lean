import ApiContract.Url.Host
import ApiContract.Url.Path

/-!
# URLs

**Input:** the text of an absolute URL.  Blanks and controls at its ends are passed over, and so are
tabs and line ends anywhere.

**Results:** `Url.ofText?` reads a URL that has a path made of segments; one that has not, such as
the address of a mail box, is none.  `Url.text` writes a URL.  `Url.push` puts a segment to its path
and leaves all else as it is.
-/

namespace ApiContract

/-- Who serves a URL, and where. -/
structure Url.Authority where
  /-- Name of the user as it is written. -/
  user : List Char := []
  /-- Password as it is written; an empty one counts as none. -/
  password : List Char := []
  /-- The host, which may be missing. -/
  host : Option Url.Host := none
  /-- The port, unless it is the usual one of the scheme. -/
  port : Option Nat := none
deriving DecidableEq, Inhabited

/-- What stands between the scheme and the path of a URL. -/
inductive Url.Front
  | authority (a : Url.Authority)
  | nothing
  /-- A slash and a dot, which keep two slashes of the path from being read as an authority. -/
  | dot
deriving DecidableEq, Inhabited

/-- A URL with a path made of segments. -/
structure Url where
  scheme : String
  front : Url.Front := .nothing
  path : Url.Segments := []
  query : Option (List Char) := none
  fragment : Option (List Char) := none
deriving DecidableEq, Inhabited

namespace Url

/-! ## Schemes -/

/-- The usual ports of the well-known schemes. -/
def usualPorts : List (String × Nat) :=
  [("http", 80), ("https", 443), ("ws", 80), ("wss", 443), ("ftp", 21)]

/-- How a scheme treats host and path. -/
def kindOf (scheme : String) : Kind :=
  if scheme = "file" then .file
  else if (usualPorts.lookup scheme).isSome then .wellKnown
  else .other

/-- How the scheme of a URL treats host and path. -/
def kind (u : Url) : Kind :=
  kindOf u.scheme

/-- Whether a character may stand in a scheme behind its first letter. -/
def isSchemeChar (c : Char) : Bool :=
  c.isAlphanum || c = '+' || c = '-' || c = '.'

/-- The scheme of a text, in small letters, and what follows its colon. -/
def scheme? (s : List Char) : Option (String × List Char) :=
  let scheme := s.takeWhile isSchemeChar
  match s.dropWhile isSchemeChar with
  | ':' :: rest =>
    if scheme.head?.any Char.isAlpha then some (String.ofList (scheme.map Char.toLower), rest)
    else none
  | _ => none

/-! ## Authorities -/

/-- Whether a character must be encoded in the name of a user or a password. -/
def isUnsafeInUser (c : Char) : Bool :=
  isUnsafeInPath c || "/:;=@[\\]^|".toList.contains c

/-- A text cut at its last character that satisfies `p`; that character is in neither part. -/
def cutLast? (p : Char → Bool) (s : List Char) : Option (List Char × List Char) :=
  match s.reverse.dropWhile (!p ·) with
  | [] => none
  | _ :: before => some (before.reverse, (s.reverse.takeWhile (!p ·)).reverse)

/-- How many characters name the host: up to a colon that does not stand between brackets. -/
def hostLength (isBracketed : Bool) : List Char → Nat
  | [] => 0
  | c :: rest =>
    if c = ':' ∧ !isBracketed then 0
    else hostLength (if c = '[' then true else if c = ']' then false else isBracketed) rest + 1

/-- Reads a port behind a colon. -/
def port? (scheme : String) (s : List Char) : Option (Option Nat) :=
  if s.isEmpty then some none
  else
    (((if s.all Char.isDigit then Decimal.digits? 10 s else none)).filter (· < 65536)).map fun n =>
      if usualPorts.lookup scheme = some n then none else some n

/-- Reads host and port. -/
def hostAndPort? (scheme : String) (s : List Char) : Option (Option Host × Option Nat) :=
  let n := hostLength false s
  let hostText := s.take n
  let isPlain := kindOf scheme = .other
  if hostText.isEmpty ∧ (!isPlain ∨ n < s.length) then none
  else
    match if isPlain then Host.ofPlainText? hostText else Host.ofText? hostText,
      port? scheme ((s.drop n).drop 1) with
    | some host, some port => some (if hostText.isEmpty then none else some host, port)
    | _, _ => none

/-- Reads user, password, host and port; `isEnd` says that the URL ends there.  A user asks for a
host, and so does an at sign that something else follows. -/
def authority? (scheme : String) (s : List Char) (isEnd : Bool) : Option Authority := do
  let parts := cutLast? (· = '@') s
  let (info, place) := parts.getD ([], s)
  let encoded := Text.Percent.encode isUnsafeInUser
  let (user, password) := Text.cut (· = ':') info
  let user := encoded user
  let password := encoded (password.getD [])
  let (host, port) ← hostAndPort? scheme place
  let asks := !user.isEmpty || !password.isEmpty || parts.isSome && info.isEmpty && !isEnd
  if host.isNone && asks then none else some { user, password, host, port }

/-- An authority as text. -/
def Authority.text (a : Authority) : List Char :=
  let colon := if a.password.isEmpty then [] else ':' :: a.password
  let info := a.user ++ colon
  (if info.isEmpty then [] else info ++ ['@']) ++
    ((a.host.map (·.text.toList)).getD []) ++
    match a.port with
    | some n => ':' :: (toString n).toList
    | none => []

/-! ## Reading -/

/-- What is read of a file behind two slashes: host and path.  A drive letter is no host, and a path
that begins with one has no host; nor has the machine itself. -/
def filePlace? (s : List Char) : Option (Option Host × Segments) :=
  let hostText := s.takeWhile (!Kind.file.isSlash ·)
  let path := Segments.ofText .file (s.drop hostText.length)
  if Segment.isDrive hostText then some (none, Segments.ofText .file s)
  else if hostText.isEmpty then some (none, path)
  else
    (Host.ofText? hostText).map fun host =>
      let isHere := host = .name "localhost"
      let beginsWithDrive := (path.head?.any Segment.isDrive)
      (if isHere || beginsWithDrive then none else some host, path)

/-- What is read behind the scheme; `isEnd` says that no query and no fragment follows. -/
def place? (scheme : String) (s : List Char) (isEnd : Bool) : Option (Front × Segments) :=
  let k := kindOf scheme
  match k with
  | .file =>
    match s with
    | a :: b :: rest =>
      if k.isSlash a && k.isSlash b then
        (filePlace? rest).map fun (host, path) => (.authority { host }, path)
      else some (.authority {}, Segments.ofText k s)
    | s => some (.authority {}, Segments.ofText k s)
  | .wellKnown =>
    let body := s.dropWhile k.isSlash
    let text := body.takeWhile (!k.isSlash ·)
    let rest := body.drop text.length
    (authority? scheme text (isEnd && rest.isEmpty)).map fun a =>
      (.authority a, Segments.ofText k rest)
  | .other =>
    match s with
    | '/' :: '/' :: body =>
      let text := body.takeWhile (!k.isSlash ·)
      let rest := body.drop text.length
      (authority? scheme text (isEnd && rest.isEmpty)).map fun a =>
        (.authority a, if rest.isEmpty then [] else Segments.ofText k rest)
    | '/' :: _ =>
      let path := Segments.ofText k s
      some (if path.length > 1 && path.head? = some [] then .dot else .nothing, path)
    | _ => none

/-- Whether a character is passed over at the ends of a text. -/
def isMargin (c : Char) : Bool :=
  c.toNat ≤ 0x20

/-- A text without what is passed over. -/
def cleaned (s : List Char) : List Char :=
  ((s.reverse.dropWhile isMargin).reverse.dropWhile isMargin).filter (!Segments.isSkipped ·)

/-- Whether a character must be encoded in a query. -/
def Kind.isUnsafeInQuery (k : Kind) (c : Char) : Bool :=
  c.toNat ≤ 0x20 || c.toNat = 0x7F || "\"#<>".toList.contains c || k.isSpecial && c = '\''

/-- Reads a URL. -/
def ofText? (s : String) : Option Url := do
  let (scheme, rest) ← scheme? (cleaned s.toList)
  let (rest, fragment) := Text.cut (· = '#') rest
  let (rest, query) := Text.cut (· = '?') rest
  let (front, path) ← place? scheme rest (query.isNone && fragment.isNone)
  return {
    scheme, front, path
    query := query.map (Text.Percent.encode (kindOf scheme).isUnsafeInQuery)
    fragment := fragment.map (Text.Percent.encode isUnsafe) }

/-! ## Writing -/

/-- What stands before the path, as text. -/
def Front.text : Front → List Char
  | authority a => '/' :: '/' :: a.text
  | nothing => []
  | dot => ['/', '.']

/-- A URL as text. -/
def text (u : Url) : String :=
  let part (mark : Char) : Option (List Char) → List Char
    | some s => mark :: s
    | none => []
  String.ofList (u.scheme.toList ++ ':' :: (u.front.text ++ Segments.text u.path ++
    part '?' u.query ++ part '#' u.fragment))

/-! ## Segments -/

/-- A URL whose path has no empty segment at its end, unless it is the only one. -/
def withoutEmptyEnd (u : Url) : Url :=
  { u with path := Segments.withoutEmptyEnd u.path }

/-- Puts a segment to the end of the path. -/
def push (u : Url) (value : String) : Url :=
  { u with path := Segments.push u.kind u.path value.toList }

end Url
end ApiContract
