import ApiContract.Http.MediaType
import ApiContract.Text.Utf8

/-!
# Multipart bodies

**Input:** the content type of a request, which names a boundary, and its body: parts with header
fields of their own, separated by lines that begin with two dashes and the boundary.

**Results:** `Multipart.parts?` gives the parts that have a name.  What stands before the first
boundary and after the last one is passed over; a body that ends before its last boundary is none.
-/

namespace ApiContract

/-- A part of a multipart body. -/
structure Part where
  name : String
  fileName : Option String := none
  contentType : Option String := none
  data : ByteArray := .empty
deriving DecidableEq, Inhabited

namespace Multipart

/-- The end of a line. -/
def lineEnd : List UInt8 :=
  [13, 10]

/-- Bytes before the first occurrence of a mark, behind those in `before`, which are in reverse
order, and the bytes from the mark on. -/
def cut? (mark before : List UInt8) : List UInt8 → Option (List UInt8 × List UInt8)
  | [] => if mark.isEmpty then some (before.reverse, []) else none
  | b :: rest =>
    if mark.isPrefixOf (b :: rest) then some (before.reverse, b :: rest)
    else cut? mark (b :: before) rest

/-- Whether a byte is a space or a tab. -/
def isGap (b : UInt8) : Bool :=
  b = 32 || b = 9

/-! ## Header fields -/

/-- What follows the end of a line. -/
def afterLine? : List UInt8 → Option (List UInt8)
  | 13 :: 10 :: rest => some rest
  | 10 :: rest => some rest
  | _ => none

/-- Reads a header field: its name with a colon directly behind it, and its value without blanks
around it. -/
def field? (s : List UInt8) : Option ((String × ByteArray) × List UInt8) :=
  let isName (b : UInt8) : Bool := isTokenChar (Char.ofNat b.toNat) && b < 128
  let name := s.takeWhile isName
  match s.dropWhile isName with
  | 58 :: rest =>
    let body := rest.dropWhile isGap
    let value := Text.dropWhileEnd isGap (body.takeWhile Headers.isValueByte)
    if name.isEmpty then none
    else
      (afterLine? (body.dropWhile Headers.isValueByte)).map fun rest =>
        ((Text.asciiLower (String.ofList (name.map fun b => Char.ofNat b.toNat)),
          Bytes.ofList value),
          rest)
  | _ => none

/-- Reads at most `bound` header fields up to an empty line. -/
def fields? : Nat → List UInt8 → Option (List (String × ByteArray))
  | 0, s => (afterLine? s).map fun _ => []
  | bound + 1, s =>
    match afterLine? s with
    | some _ => some []
    | none =>
      match field? s with
      | some (f, rest) => (fields? bound rest).map (f :: ·)
      | none => none

/-- How many header fields a part may have. -/
def fieldLimit : Nat :=
  32

/-! ## Attributes -/

/-- Whether a byte is white space. -/
def isSpace (b : UInt8) : Bool :=
  b = 32 || b = 9 || b = 10 || b = 12 || b = 13

/-- The bytes up to the next quote without a backslash before it, behind those in `done`, which are
in reverse order. -/
def quoted? (done : List UInt8) : List UInt8 → Option (List UInt8)
  | [] => none
  | 34 :: rest => if done.head? = some 92 then quoted? (34 :: done) rest else some done.reverse
  | b :: rest => quoted? (b :: done) rest

/-- A text without the backslashes that stand before quotes. -/
def unescaped : List Char → List Char
  | '\\' :: '"' :: rest => '"' :: unescaped rest
  | c :: rest => c :: unescaped rest
  | [] => []

/-- The value of an attribute, from what follows its name. -/
def attrValue? (s : List UInt8) : Option String :=
  match s.dropWhile isSpace with
  | 61 :: rest =>
    match rest.dropWhile isSpace with
    | 34 :: body =>
      ((quoted? [] body).bind Bytes.text?).map fun s =>
        String.ofList (unescaped s.toList)
    | body => Bytes.text? (body.takeWhile fun b => b ≠ 59 && b ≠ 32)
  | _ => none

/-- The value of the first attribute of a name.  The name counts only at the beginning and behind
white space or a semicolon; an occurrence elsewhere, of which `skip` bytes are left, is passed over,
and what follows it is taken like the beginning. -/
def attrFrom? (name : List UInt8) (skip : Nat) (before : Option UInt8) :
    List UInt8 → Option String
  | [] => none
  | b :: rest =>
    match skip with
    | skip + 1 => attrFrom? name skip none rest
    | 0 =>
      if name.isPrefixOf (b :: rest) then
        if before.all fun c => isSpace c || c = 59 then
          attrValue? ((b :: rest).drop name.length)
        else attrFrom? name (name.length - 1) none rest
      else attrFrom? name 0 (some b) rest

/-- The value of an attribute of a header field. -/
def attr? (name : String) (value : ByteArray) : Option String :=
  attrFrom? (Bytes.ofChars name.toList) 0 none (Bytes.toList value)

/-! ## Parts -/

/-- A part from its header fields and its data, if it has a name.  Of several fields with one name
the last counts. -/
def part? (fields : List (String × ByteArray)) (data : List UInt8) : Option Part :=
  let field (name : String) := fields.reverse.lookup name
  let given (name : String) := (field "content-disposition").bind (attr? name)
  (given "name").map fun name =>
    { name
      fileName := given "filename"
      contentType := (((field "content-type").bind Headers.valueText?).bind MediaType.ofText?).map
        (·.text)
      data := Bytes.ofList data }

/-- Reads at most `bound` parts from a boundary on. -/
def partsWithin (mark : List UInt8) : Nat → List UInt8 → Option (List Part)
  | 0, _ => none
  | bound + 1, s =>
    if !mark.isPrefixOf s then none
    else
      match s.drop mark.length with
      | 45 :: 45 :: _ => some []
      | a :: b :: rest =>
        match (a :: b :: rest).dropWhile isGap with
        | 13 :: 10 :: rest =>
          match cut? (lineEnd ++ lineEnd) [] rest with
          | none => none
          | some (head, rest) =>
            match fields? fieldLimit (head ++ lineEnd ++ lineEnd),
              cut? (lineEnd ++ mark) [] (rest.drop 4) with
            | some fields, some (data, rest) =>
              (partsWithin mark bound (rest.drop 2)).map ((part? fields data).toList ++ ·)
            | _, _ => none
        | _ => none
      | _ => none

/-- The boundary that a content type names. -/
def boundary? (h : Headers) : Option String :=
  (((h.get? "content-type").bind Headers.valueText?).bind MediaType.ofText?).bind fun m =>
    if m.type = "multipart" ∧ m.bareSubtype = "form-data" then m.param "boundary" else none

/-- The greatest size of a body. -/
def sizeLimit : Nat :=
  2 * 1024 * 1024

/-- The parts of a body. -/
def parts? (h : Headers) (body : ByteArray) : Option (List Part) :=
  (boundary? h).bind fun boundary =>
    if body.size > sizeLimit then none
    else
      let mark := Bytes.ofChars ("--" ++ boundary).toList
      let bytes := Bytes.toList body
      (cut? mark [] bytes).bind fun (_, s) => partsWithin mark (bytes.length + 1) s

end Multipart
end ApiContract
