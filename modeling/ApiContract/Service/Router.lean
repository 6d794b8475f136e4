import ApiContract.Assoc
import ApiContract.Http.Message
import ApiContract.Text.Pieces

/-!
# Routes

**Input:** templates of paths with the methods that are served under each, and the method and path
of a request.

**Results:** `Router.route` finds what serves a request.  Where several templates match a path, the
one that has a word where another has a parameter goes first.  A parameter stands for one piece of
the path, which may be empty except at the end.  Whoever serves `GET` serves `HEAD` too.
-/

namespace ApiContract
namespace Router

/-- A piece of a template. -/
inductive Piece
  | word (s : List Char)
  | param (name : String)
deriving DecidableEq, Inhabited

/-- The pieces of a template. -/
abbrev Pattern := List Piece

/-- A piece of a template from its text. -/
def Piece.ofText (s : List Char) : Piece :=
  match s with
  | '\x7b' :: rest => if rest.getLast? = some '\x7d' then param (String.ofList rest.dropLast)
    else word s
  | s => word s

/-- The pieces of a template from its text. -/
def Pattern.ofText (s : String) : Pattern :=
  (Text.pieces (· = '/') s.toList).map Piece.ofText

/-- The values that pieces of a path give to the parameters of a template, if they match. -/
def Pattern.match? : Pattern → List (List Char) → Option (List (String × List Char))
  | [], [] => some []
  | .word w :: ps, s :: ss => if w = s then Pattern.match? ps ss else none
  | .param name :: ps, s :: ss =>
    if s.isEmpty ∧ ss.isEmpty then none else (Pattern.match? ps ss).map ((name, s) :: ·)
  | _, _ => none

/-- Whether a template goes before another. -/
def Pattern.precedes : Pattern → Pattern → Bool
  | .word _ :: _, .param _ :: _ => true
  | .param _ :: _, .word _ :: _ => false
  | _ :: ps, _ :: qs => Pattern.precedes ps qs
  | _, _ => false

end Router

/-- What is served, by template and method. -/
abbrev Router (α : Type) := Assoc Router.Pattern (Assoc String α)

namespace Router

variable {α : Type}

/-- Serves a method under a template. -/
def serve (r : Router α) (template method : String) (a : α) : Router α :=
  let pattern := Pattern.ofText template
  Assoc.put pattern (((r.get? pattern).getD []).put method a) r

/-- Serves each method under its template. -/
def ofList (routes : List (String × String × α)) : Router α :=
  routes.foldl (fun r (template, method, a) => r.serve template method a) []

/-- Where a request goes. -/
inductive Destination (α : Type)
  /-- To what serves it, with the values of the parameters as they stand in the path. -/
  | found (a : α) (params : List (String × List Char))
  /-- Nowhere, but other methods are served. -/
  | otherMethods (allowed : List String)
  | nowhere
deriving Inhabited

/-- The methods that are allowed where some are served. -/
def allowed (served : Assoc String α) : List String :=
  served.flatMap fun (method, _) => if method = "GET" then ["GET", "HEAD"] else [method]

/-- What serves a method. -/
def endpoint? (served : Assoc String α) (method : String) : Option α :=
  (served.get? method).or (if method = "HEAD" then served.get? "GET" else none)

/-- A template that matches, with what is served and the values of the parameters. -/
structure Match (α : Type) where
  pattern : Pattern
  served : Assoc String α
  params : List (String × List Char)

/-- The first of two matches. -/
def Match.first (m n : Match α) : Match α :=
  if n.pattern.precedes m.pattern then n else m

/-- The first of all templates that match a path. -/
def match? (r : Router α) (path : List Char) : Option (Match α) :=
  let pieces := Text.pieces (· = '/') path
  let found := r.filterMap fun (pattern, served) =>
    (pattern.match? pieces).map fun params => { pattern, served, params }
  match found with
  | [] => none
  | m :: ms => some (ms.foldl Match.first m)

/-- Where a request goes. -/
def route (r : Router α) (method : String) (path : List Char) : Destination α :=
  match r.match? path with
  | none => .nowhere
  | some m =>
    match endpoint? m.served method with
    | some a => .found a m.params
    | none => .otherMethods (allowed m.served)

end Router
end ApiContract
