import ApiContract.Http.Headers

/-!
# Media types

**Input:** a text such as `Text/Plain; charset=UTF-8`.

**Results:** its type, subtype and parameters, and the text in its usual form: type, subtype, names
of parameters and the value of `charset` in small letters, all else as it was written.  A text
without a slash or with a character that has no place there is no media type.
-/

namespace ApiContract

/-- A parameter of a media type. -/
structure MediaParam where
  /-- Name in small letters. -/
  name : String
  /-- Value without quotes. -/
  value : String
  /-- The parameter in its usual form, with the blanks around it. -/
  text : List Char
deriving DecidableEq, Inhabited

/-- A media type with parameters. -/
structure MediaType where
  /-- Type in small letters. -/
  type : String
  /-- Subtype in small letters. -/
  subtype : String
  /-- Parameters in their order. -/
  params : List MediaParam := []
  /-- What follows the last parameter. -/
  rest : List Char := []
deriving DecidableEq, Inhabited

namespace MediaType

/-- Whether a character may stand between quotes. -/
def isQuotable (c : Char) : Bool :=
  c.toNat > 31 && c.toNat ≠ 127

/-- The value of a parameter, with its written form, and what follows behind the next semicolon;
`none` if nothing follows. -/
structure ValueRead where
  value : List Char
  text : List Char
  next : Option (List Char)

/-- Reads a value between quotes, which has at least one character, from behind the first quote. -/
def quotedValue? (s : List Char) : Option ValueRead :=
  match s with
  | [] => none
  | first :: rest =>
    let more := rest.takeWhile (· ≠ '"')
    let value := first :: more
    match rest.dropWhile (· ≠ '"') with
    | [] => none
    | _ :: behind =>
      let blanks := behind.takeWhile (· = ' ')
      let text := '"' :: (value ++ '"' :: blanks)
      if !value.all isQuotable then none
      else
        match behind.dropWhile (· = ' ') with
        | [] => some ⟨value, text, none⟩
        | ';' :: next => some ⟨value, text, some next⟩
        | _ => none

/-- Reads a value; one without quotes may be empty at the end only. -/
def value? (s : List Char) : Option ValueRead :=
  match s with
  | '"' :: rest => quotedValue? rest
  | _ =>
    let value := s.takeWhile isTokenChar
    match s.dropWhile isTokenChar with
    | [] => some ⟨value, value, none⟩
    | ';' :: next => if value.isEmpty then none else some ⟨value, value, some next⟩
    | _ => none

/-- Reads a parameter that does not begin with a blank, and says what follows. -/
def param? (blanks s : List Char) : Option (MediaParam × Option (List Char)) :=
  let name := (s.takeWhile isTokenChar).map Char.toLower
  match s.dropWhile isTokenChar with
  | '=' :: rest =>
    if name.isEmpty then none
    else
      (value? rest).map fun v =>
        let lowered (cs : List Char) :=
          if name = "charset".toList then cs.map Char.toLower else cs
        (⟨String.ofList name, String.ofList (lowered v.value),
          blanks ++ name ++ '=' :: lowered v.text⟩, v.next)
  | _ => none

/-- Reads at most `bound` parameters from behind a semicolon; also gives what follows the last. -/
def paramsWithin : Nat → List Char → Option (List MediaParam × List Char)
  | 0, s => some ([], ';' :: s)
  | bound + 1, s =>
    let blanks := s.takeWhile (· = ' ')
    match s.dropWhile (· = ' ') with
    | [] => some ([], ';' :: s)
    | body =>
      match param? blanks body with
      | none => none
      | some (p, none) => some ([p], [])
      | some (p, some next) => (paramsWithin bound next).map fun (ps, rest) => (p :: ps, rest)

/-- A media type from its text. -/
def ofText? (s : String) : Option MediaType :=
  let cs := s.toList
  let type := cs.takeWhile isTokenChar
  let small (cs : List Char) := String.ofList (cs.map Char.toLower)
  match cs.dropWhile isTokenChar with
  | '/' :: behind =>
    let subtype := behind.takeWhile isTokenChar
    if type.isEmpty then none
    else
      match behind.dropWhile isTokenChar with
      | [] => some { type := small type, subtype := small subtype }
      | ';' :: next =>
        if subtype.isEmpty then none
        else
          (paramsWithin (next.length + 1) next).map fun (params, rest) =>
            { type := small type, subtype := small subtype, params
              rest := if params.isEmpty then [] else rest }
      | _ => none
  | _ => none

/-- The usual form of a media type. -/
def text (m : MediaType) : String :=
  m.type ++ "/" ++ m.subtype ++
    String.ofList (m.params.flatMap (fun p => ';' :: p.text) ++ m.rest)

/-- The subtype without its last suffix, which a plus sign begins. -/
def bareSubtype (m : MediaType) : String :=
  let rev := m.subtype.toList.reverse
  let stem := ((rev.dropWhile (· ≠ '+')).drop 1).reverse
  if stem.isEmpty then m.subtype else String.ofList stem

/-- The first value of a parameter. -/
def param (m : MediaType) (name : String) : Option String :=
  (m.params.find? (·.name == name)).map (·.value)

end MediaType
end ApiContract
