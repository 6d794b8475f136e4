import ApiContract.Emit.Client

/-!
# The types of values that are read

**Input:** an expression of generated code that reads a scalar or a file.

The functions that generated code reads values with give a value of the parser's type, or an
optional one.

**Results:**

* `Reads`: the type of an expression that calls one of these functions;
* `Reads.unique`: it has no other;
* `ParamRead.exists_reads`, `HeaderRead.exists_reads`, `FieldRead.exists_reads`: what is read for
  parameters, headers and fields of forms has the type of their values, which is optional unless
  they are required.
-/

namespace ApiContract
namespace Emit

open Code (flat word literal parens commas)

/-- The parsers, with the types of their values. -/
def parsers : List (Code × Primitive) :=
  [(flat "::bindery::parse_int", .int),
    (flat "::bindery::parse_long", .int64),
    (flat "::bindery::parse_float", .float),
    (flat "::bindery::parse_string", .string),
    (flat "::bindery::parse_bool_strict", .boolean)]

/-- The functions that read a scalar, and whether they give the value itself. -/
def scalarReaders : List (Code × Bool) :=
  [(flat "::bindery::read_required_param(", true),
    (flat "::bindery::read_optional_param(", false),
    (flat "::bindery::client::required_header(", true),
    (flat "::bindery::client::optional_header(", false),
    (flat "form.required(", true),
    (flat "form.optional(", false)]

/-- What stands before and behind the arguments where a file is received, and whether the file
itself is given. -/
def fileReaders : List (Code × Code × Bool) :=
  [(flat "models::FileUpload::from(form.required_file(", flat ").await?)", true),
    (flat "form.optional_file(", flat ").await?.map(models::FileUpload::from)", false)]

/-- An expression that reads a value has the type that its function gives. -/
inductive Reads : Code → CodeType → Prop
  | scalar {reader args parser : Code} {required : Bool} {q : Primitive}
      (hreader : (reader, required) ∈ scalarReaders)
      (hparser : (parser, q) ∈ parsers) :
      Reads (reader ++ args ++ flat "," ++ parser ++ flat ")?")
        (optionalUnless required (.scalar q))
  | file {reader args behind : Code} {required : Bool}
      (hreader : (reader, behind, required) ∈ fileReaders) :
      Reads (reader ++ args ++ behind) (optionalUnless required (.model uploadModel))

section Unique

variable {e : Code} {t t' : CodeType} {reader reader' : Code} {required required' : Bool}

/-- No function's name begins with another's. -/
theorem eq_of_scalarReaders (h : (reader, required) ∈ scalarReaders)
    (h' : (reader', required') ∈ scalarReaders) (he : reader <+: e) (he' : reader' <+: e) :
    reader = reader' ∧ required = required' := by
  have hall : ∀ f ∈ scalarReaders, ∀ g ∈ scalarReaders, f.1 <+: g.1 ∨ g.1 <+: f.1 → f = g := by
    decide +kernel
  exact Prod.mk.inj (hall _ h _ h' (List.prefix_or_prefix_of_prefix he he'))

theorem eq_of_fileReaders {behind behind' : Code} (h : (reader, behind, required) ∈ fileReaders)
    (h' : (reader', behind', required') ∈ fileReaders) (he : reader <+: e) (he' : reader' <+: e) :
    required = required' := by
  have hall : ∀ f ∈ fileReaders, ∀ g ∈ fileReaders, f.1 <+: g.1 ∨ g.1 <+: f.1 → f = g := by
    decide +kernel
  have hfg := hall _ h _ h' (List.prefix_or_prefix_of_prefix he he')
  exact congrArg (fun f => f.2.2) hfg

theorem not_scalar_and_file {behind : Code} (h : (reader, required) ∈ scalarReaders)
    (h' : (reader', behind, required') ∈ fileReaders) (he : reader <+: e) : ¬ reader' <+: e := by
  have hall : ∀ f ∈ scalarReaders, ∀ g ∈ fileReaders, ¬ (f.1 <+: g.1 ∨ g.1 <+: f.1) := by
    decide +kernel
  exact fun he' => hall _ h _ h' (List.prefix_or_prefix_of_prefix he he')

/-- An expression ends in one parser. -/
theorem eq_of_parsers {parser parser' before before' : Code} {q q' : Primitive}
    (h : (parser, q) ∈ parsers) (h' : (parser', q') ∈ parsers)
    (he : before ++ parser ++ flat ")?" = before' ++ parser' ++ flat ")?") : q = q' := by
  have hlength : ∀ f ∈ parsers, f.1.length = 6 := by decide +kernel
  have hall : ∀ f ∈ parsers, ∀ g ∈ parsers, f.1 = g.1 → f.2 = g.2 := by decide +kernel
  have hsame := List.append_cancel_right he
  have hlast := List.append_inj' hsame ((hlength _ h).trans (hlength _ h').symm)
  exact hall _ h _ h' hlast.2

/-- An expression that reads a value has one type. -/
theorem Reads.unique (h : Reads e t) (h' : Reads e t') : t = t' := by
  cases h with
  | @scalar reader args parser required q hreader hparser =>
      have hprefix : reader <+: reader ++ args ++ flat "," ++ parser ++ flat ")?" :=
        ⟨args ++ flat "," ++ parser ++ flat ")?", by simp only [List.append_assoc]⟩
      generalize he : reader ++ args ++ flat "," ++ parser ++ flat ")?" = e at h' hprefix
      cases h' with
      | @scalar reader' args' parser' required' q' hreader' hparser' =>
          have hprefix' : reader' <+: reader' ++ args' ++ flat "," ++ parser' ++ flat ")?" :=
            ⟨args' ++ flat "," ++ parser' ++ flat ")?", by simp only [List.append_assoc]⟩
          obtain ⟨-, rfl⟩ := eq_of_scalarReaders hreader hreader' hprefix hprefix'
          rw [eq_of_parsers hparser hparser' he]
      | @file reader' args' behind' required' hreader' =>
          exact absurd ⟨args' ++ behind', (List.append_assoc _ _ _).symm⟩
            (not_scalar_and_file hreader hreader' hprefix)
  | @file reader args behind required hreader =>
      have hprefix : reader <+: reader ++ args ++ behind :=
        ⟨args ++ behind, (List.append_assoc _ _ _).symm⟩
      generalize reader ++ args ++ behind = e at h' hprefix
      cases h' with
      | @scalar reader' args' parser' required' q' hreader' hparser' =>
          have hprefix' : reader' <+: reader' ++ args' ++ flat "," ++ parser' ++ flat ")?" :=
            ⟨args' ++ flat "," ++ parser' ++ flat ")?", by simp only [List.append_assoc]⟩
          exact absurd hprefix (not_scalar_and_file hreader' hreader hprefix')
      | @file reader' args' behind' required' hreader' =>
          have hprefix' : reader' <+: reader' ++ args' ++ behind' :=
            ⟨args' ++ behind', (List.append_assoc _ _ _).symm⟩
          rw [eq_of_fileReaders hreader hreader' hprefix hprefix']

end Unique

/-! ## What is read -/

theorem scalarReader_mem_parsers (q : Primitive) : (flat (scalarReader q), q) ∈ parsers := by
  cases q <;> simp [parsers, scalarReader]

/-- A statement that binds the value of an expression to a name. -/
def bindingCode (name : String) (e : Code) : Code :=
  flat "let" ++ word name ++ flat "=" ++ e ++ flat ";"

theorem ParamRead.exists_reads (r : ParamRead) :
    ∃ e, r.code = bindingCode r.binding e ∧
      Reads e (optionalUnless r.required (.scalar r.scalar)) := by
  have hcode : ∀ reader : String, flat "let" ++ word r.binding ++ flat "=" ++ flat reader ++
        parens (commas [literal r.wire, rawCode r, flat (scalarReader r.scalar)]) ++ flat "?;" =
      bindingCode r.binding ((flat reader ++ [.mark '(']) ++
        (literal r.wire ++ flat "," ++ rawCode r) ++
        flat "," ++ flat (scalarReader r.scalar) ++ flat ")?") := by
    intro reader
    have hlast : flat "?;" = flat "?" ++ flat ";" := rfl
    have hclose : flat ")?" = .mark ')' :: flat "?" := rfl
    have hcomma : flat "," = [.mark ','] := rfl
    rw [hlast, hclose, hcomma]
    simp [bindingCode, parens, commas, List.intercalate]
  unfold ParamRead.code
  cases r.required with
  | true => exact ⟨_, hcode _, .scalar (by decide +kernel) (scalarReader_mem_parsers _)⟩
  | false => exact ⟨_, hcode _, .scalar (by decide +kernel) (scalarReader_mem_parsers _)⟩

theorem HeaderRead.exists_reads (h : HeaderRead) :
    ∃ e, h.code = word h.field ++ flat ":" ++ e ++ flat "," ∧
      Reads e (optionalUnless h.required (.scalar h.scalar)) := by
  have hcode : ∀ reader : String, word h.field ++ flat ":" ++ flat reader ++
        flat "(response.headers()," ++ literal h.wire ++ flat "," ++ flat (scalarReader h.scalar) ++
          flat ")?," =
      word h.field ++ flat ":" ++ ((flat reader ++ [.mark '(']) ++
        (flat "response.headers()," ++ literal h.wire) ++ flat "," ++
          flat (scalarReader h.scalar) ++ flat ")?") ++ flat "," := by
    intro reader
    have hopen : flat "(response.headers()," = .mark '(' :: flat "response.headers()," := rfl
    have hlast : flat ")?," = flat ")?" ++ flat "," := rfl
    rw [hopen, hlast]
    simp
  unfold HeaderRead.code
  cases h.required with
  | true => exact ⟨_, hcode _, .scalar (by decide +kernel) (scalarReader_mem_parsers _)⟩
  | false => exact ⟨_, hcode _, .scalar (by decide +kernel) (scalarReader_mem_parsers _)⟩

/-- The type of the values of a form field. -/
def FieldKind.type : FieldKind → CodeType
  | .scalar q => .scalar q
  | .file => .model uploadModel

theorem FieldRead.exists_reads (f : FieldRead) :
    ∃ e, f.code = bindingCode f.binding e ∧ Reads e (optionalUnless f.required f.kind.type) := by
  have hscalar : ∀ (reader : String) (q : Primitive), flat "let" ++ word f.binding ++ flat "=" ++
        flat reader ++ literal f.wire ++ flat "," ++ flat (scalarReader q) ++ flat ")?;" =
      bindingCode f.binding (flat reader ++ literal f.wire ++ flat "," ++ flat (scalarReader q) ++
        flat ")?") := by
    intro reader q
    have hlast : flat ")?;" = flat ")?" ++ flat ";" := rfl
    rw [hlast]
    simp [bindingCode]
  have hfile : ∀ (reader behind : String), flat "let" ++ word f.binding ++ flat "=" ++
    flat reader ++
        literal f.wire ++ (flat ", &mut cleanup" ++ flat behind ++ flat ";") =
      bindingCode f.binding (flat reader ++ (literal f.wire ++ flat ", &mut cleanup") ++
        flat behind) := by
    intro reader behind
    simp [bindingCode]
  unfold FieldRead.code
  cases f.kind with
  | scalar q =>
      cases f.required with
      | true =>
          exact ⟨_, hscalar _ q, .scalar (by simp [scalarReaders]) (scalarReader_mem_parsers q)⟩
      | false =>
          exact ⟨_, hscalar _ q, .scalar (by simp [scalarReaders]) (scalarReader_mem_parsers q)⟩
  | file =>
      cases f.required with
      | true => exact ⟨_, hfile _ ").await?)", .file (by simp [fileReaders])⟩
      | false =>
          exact ⟨_, hfile _ ").await?.map(models::FileUpload::from)", .file (by simp [fileReaders])⟩

end Emit
end ApiContract
