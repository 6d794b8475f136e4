import ApiContract.Text.Pieces

/-!
# Path templates

A template such as `/pets/{petId}` names parameters between braces.

**Results:** `params` gives the names in their order.  A brace that opens again before one has
closed starts over, and empty braces name nothing.  `scan?` finds the same names by their byte
offsets and slices them out of the template.  `filled` puts values in place of the names, one name
after the other, and leaves names without a value as they are.
-/

namespace ApiContract
namespace Template

/-- Names between braces; `open?` holds what has been read since an opening brace. -/
def paramsFrom (open? : Option (List Char)) : List Char → List (List Char)
  | [] => []
  | c :: cs =>
    if c = '\x7b' then paramsFrom (some []) cs
    else if c = '\x7d' then
      match open? with
      | some (d :: ds) => (d :: ds).reverse :: paramsFrom none cs
      | _ => paramsFrom none cs
    else paramsFrom (open?.map (c :: ·)) cs

/-- The parameter names of a template. -/
def params (template : String) : List String :=
  (paramsFrom none template.toList).map String.ofList

/-! ## Byte offsets -/

/-- What stands between two byte offsets of a text.  A slice must begin and end between characters,
and must not end in front of its beginning. -/
def slice? (s : String) (start stop : Nat) : Option String :=
  if h : String.Pos.Raw.IsValid s ⟨start⟩ ∧ String.Pos.Raw.IsValid s ⟨stop⟩ ∧ start ≤ stop then
    some (s.slice (s.pos ⟨start⟩ h.1) (s.pos ⟨stop⟩ h.2.1) h.2.2).copy
  else none

/-- The names in the rest of a template, which begins at the offset `here`; `start` is the offset
behind a brace that is open, and 0 where none is.  A name that cannot be sliced ends the pass. -/
def scanFrom? (template : String) (start here : Nat) : List Char → Option (List String)
  | [] => some []
  | c :: cs =>
    if c = '\x7b' then scanFrom? template (here + 1) (here + c.utf8Size) cs
    else if c = '\x7d' ∧ 0 < start then do
      let name ← slice? template start here
      let names ← scanFrom? template 0 (here + c.utf8Size) cs
      return if name.isEmpty then names else name :: names
    else scanFrom? template start (here + c.utf8Size) cs

/-- The names of a template in one pass over its characters and their offsets. -/
def scan? (template : String) : Option (List String) :=
  scanFrom? template 0 0 template.toList

/-! ## Values -/

/-- A text with a value in place of each occurrence of a mark, from left to right; `skip` characters
belong to an occurrence that has been replaced already. -/
def replaced (mark value : List Char) (skip : Nat) : List Char → List Char
  | [] => []
  | c :: cs =>
    match skip with
    | skip + 1 => replaced mark value skip cs
    | 0 =>
      if mark.isPrefixOf (c :: cs) then value ++ replaced mark value (mark.length - 1) cs
      else c :: replaced mark value 0 cs

/-- A name between braces. -/
def mark (name : String) : List Char :=
  '\x7b' :: (name.toList ++ ['\x7d'])

/-- A text with values in place of names; a value may hold names that come after its own. -/
def filled (values : List (String × String)) (s : List Char) : List Char :=
  values.foldl (fun s v => replaced (mark v.1) v.2.toList 0 s) s

/-- The segments of a template that are not empty. -/
def segments (template : String) : List (List Char) :=
  (Text.pieces (· = '/') template.toList).filter (!·.isEmpty)

end Template
end ApiContract
