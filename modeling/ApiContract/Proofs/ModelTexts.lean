import ApiContract.Emit.Models
import ApiContract.Proofs.Related

/-!
# The texts of types and models

**Input:** the types, fields, variants and models that code is generated for.

Generated code is described here by rules for its tokens, one for each form that a type or a model
has.  The rules do without the functions that print.

**Results:**

* `TypeText`, `FieldText`, `VariantText`, `ModelText`: the texts of types, fields, variants and
  models;
* `CodeType.text`, `Field.text`, `SumVariant.text`, `Model.text`: what is printed is such a text;
* `TypeText.unique`: a text is that of one type;
* `ModelText.declaredTypes_eq`: the text of a model declares one type, which has the model's name.
-/

namespace ApiContract
namespace Emit

open Code (flat word literal angles braces docAttrs)

/-! ## Pieces -/

/-- Code that has a piece for each element of a list, in its order. -/
def Pieces {α : Type} (Text : α → Code → Prop) (xs : List α) (c : Code) : Prop :=
  ∃ texts, List.Forall₂ Text xs texts ∧ c = texts.flatten

section Pieces

variable {α : Type} {Text : α → Code → Prop} {xs : List α} {c : Code}

theorem texts_map {f : α → Code} (h : ∀ x ∈ xs, Text x (f x)) :
    List.Forall₂ Text xs (xs.map f) := by
  rw [List.forall₂_map_right_iff, List.forall₂_same]
  exact h

theorem Pieces.flatMap {f : α → Code} (h : ∀ x, Text x (f x)) (xs : List α) :
    Pieces Text xs (xs.flatMap f) :=
  ⟨xs.map f, texts_map fun x _ => h x, List.flatMap_def⟩

/-- A piece stands in the code. -/
theorem Pieces.exists_infix (h : Pieces Text xs c) {x : α} (hx : x ∈ xs) :
    ∃ text, Text x text ∧ text <:+: c := by
  obtain ⟨texts, htexts, rfl⟩ := h
  obtain ⟨text, htext, hx⟩ := exists_of_mem_right htexts.flip hx
  exact ⟨text, hx, List.infix_of_mem_flatten htext⟩

end Pieces

/-! ## Types -/

/-- The text of a type among the models, or beside them. -/
inductive TypeText (scope : Scope) : CodeType → Code → Prop
  | int : TypeText scope (.scalar .int) (word "i32")
  | int64 : TypeText scope (.scalar .int64) (word "i64")
  | float : TypeText scope (.scalar .float) (word "f64")
  | string : TypeText scope (.scalar .string) (word "String")
  | boolean : TypeText scope (.scalar .boolean) (word "bool")
  | inner {name : String} (hscope : scope = .models) :
      TypeText scope (.model name) (flat "super::" ++ word name)
  | outer {name : String} (hscope : scope = .sibling) :
      TypeText scope (.model name) (flat "models::" ++ word name)
  | file : TypeText scope .file (flat "::std::path::PathBuf")
  | dynamicMap :
      TypeText scope .dynamicMap
        (flat "::std::collections::HashMap<String, ::serde_json::Value>")
  | list {t : CodeType} {type : Code} (h : TypeText scope t type) :
      TypeText scope (.list t) (word "Vec" ++ angles type)
  | boxed {t : CodeType} {type : Code} (h : TypeText scope t type) :
      TypeText scope (.boxed t) (word "Box" ++ angles type)
  | optional {t : CodeType} {type : Code} (h : TypeText scope t type) :
      TypeText scope (.optional t) (word "Option" ++ angles type)

theorem CodeType.text (scope : Scope) (t : CodeType) : TypeText scope t (t.code scope) := by
  induction t with
  | scalar p =>
      cases p with
      | int => exact .int
      | int64 => exact .int64
      | float => exact .float
      | string => exact .string
      | boolean => exact .boolean
  | model name =>
      cases scope with
      | models => exact .inner rfl
      | sibling => exact .outer rfl
  | file => exact .file
  | dynamicMap => exact .dynamicMap
  | list t ih => exact .list ih
  | boxed t ih => exact .boxed ih
  | optional t ih => exact .optional ih

/-- Types that are written alike are the same. -/
theorem TypeText.unique {scope : Scope} {t u : CodeType} {c : Code} (h : TypeText scope t c)
    (h' : TypeText scope u c) : t = u := by
  have hinner : flat "super::" = [.word "super", .mark ':', .mark ':'] := rfl
  have houter : flat "models::" = [.word "models", .mark ':', .mark ':'] := rfl
  have hfile : flat "::std::path::PathBuf" = .mark ':' :: flat ":std::path::PathBuf" := rfl
  have hmap : flat "::std::collections::HashMap<String, ::serde_json::Value>" =
      .mark ':' :: flat ":std::collections::HashMap<String, ::serde_json::Value>" := rfl
  have hne : flat ":std::path::PathBuf" ≠
      flat ":std::collections::HashMap<String, ::serde_json::Value>" := by decide +kernel
  -- Every text begins with words of its own, but for those of files and of maps.
  induction h generalizing u with
  | list h ih =>
      generalize hc : word "Vec" ++ angles _ = c at h'
      cases h' with
      | list h' =>
          have htype := List.append_cancel_right (List.cons.inj (List.cons.inj hc).2).2
          rw [ih (htype ▸ h')]
      | _ => simp [word, angles, hinner, houter, hfile, hmap] at hc
  | boxed h ih =>
      generalize hc : word "Box" ++ angles _ = c at h'
      cases h' with
      | boxed h' =>
          have htype := List.append_cancel_right (List.cons.inj (List.cons.inj hc).2).2
          rw [ih (htype ▸ h')]
      | _ => simp [word, angles, hinner, houter, hfile, hmap] at hc
  | optional h ih =>
      generalize hc : word "Option" ++ angles _ = c at h'
      cases h' with
      | optional h' =>
          have htype := List.append_cancel_right (List.cons.inj (List.cons.inj hc).2).2
          rw [ih (htype ▸ h')]
      | _ => simp [word, angles, hinner, houter, hfile, hmap] at hc
  | @inner name hscope =>
      generalize hc : flat "super::" ++ word name = c at h'
      cases h' with
      | inner _ =>
          obtain rfl : name = _ :=
            Token.word.inj (List.singleton_inj.1 (List.append_cancel_left hc))
          rfl
      | outer hother => cases hscope.symm.trans hother
      | _ => simp [word, angles, hinner, hfile, hmap] at hc
  | @outer name hscope =>
      generalize hc : flat "models::" ++ word name = c at h'
      cases h' with
      | outer _ =>
          obtain rfl : name = _ :=
            Token.word.inj (List.singleton_inj.1 (List.append_cancel_left hc))
          rfl
      | inner hother => cases hscope.symm.trans hother
      | _ => simp [word, angles, houter, hfile, hmap] at hc
  | file =>
      generalize hc : flat "::std::path::PathBuf" = c at h'
      cases h' with
      | file => rfl
      | dynamicMap =>
          rw [hfile, hmap] at hc
          exact absurd (List.cons.inj hc).2 hne
      | _ => simp [word, angles, hinner, houter, hfile] at hc
  | dynamicMap =>
      generalize hc : flat "::std::collections::HashMap<String, ::serde_json::Value>" = c at h'
      cases h' with
      | dynamicMap => rfl
      | file =>
          rw [hfile, hmap] at hc
          exact absurd (List.cons.inj hc).2.symm hne
      | _ => simp [word, angles, hinner, houter, hmap] at hc
  | int =>
      generalize hc : word "i32" = c at h'
      cases h' with
      | int => rfl
      | _ => simp [word, angles, hinner, houter, hfile, hmap] at hc
  | int64 =>
      generalize hc : word "i64" = c at h'
      cases h' with
      | int64 => rfl
      | _ => simp [word, angles, hinner, houter, hfile, hmap] at hc
  | float =>
      generalize hc : word "f64" = c at h'
      cases h' with
      | float => rfl
      | _ => simp [word, angles, hinner, houter, hfile, hmap] at hc
  | string =>
      generalize hc : word "String" = c at h'
      cases h' with
      | string => rfl
      | _ => simp [word, angles, hinner, houter, hfile, hmap] at hc
  | boolean =>
      generalize hc : word "bool" = c at h'
      cases h' with
      | boolean => rfl
      | _ => simp [word, angles, hinner, houter, hfile, hmap] at hc

/-! ## Fields and variants -/

/-- What stands before a field on its format, if it has one. -/
def formatText : Option String → Code
  | none => []
  | some format => docAttrs ("Format: `" ++ format ++ "`")

/-- The text of a field: its name on the wire, its identifier and its type.  A field that may be
absent is left out where it is. -/
inductive FieldText : Field → Code → Prop
  | required {ident wire : String} {t : CodeType} {format : Option String} {type : Code}
      (h : TypeText .models t type) :
      FieldText ⟨ident, wire, t, true, format⟩
        (formatText format ++
          (flat "#[serde(rename =" ++ literal wire ++
            (flat ")] pub" ++ word ident ++ (flat ":" ++ type ++ flat ","))))
  | optional {ident wire : String} {t : CodeType} {format : Option String} {type : Code}
      (h : TypeText .models t type) :
      FieldText ⟨ident, wire, t, false, format⟩
        (formatText format ++
          (flat "#[serde(rename =" ++ literal wire ++
            (flat ", default, skip_serializing_if =" ++ literal "Option::is_none" ++
              (flat ")] pub" ++ word ident ++ (flat ":" ++ type ++ flat ",")))))

/-- The text of a member of a variant: its identifier and its type. -/
inductive MemberText : String × CodeType → Code → Prop
  | member {ident : String} {t : CodeType} {type : Code} (h : TypeText .models t type) :
      MemberText (ident, t) (word ident ++ (flat ":" ++ type ++ flat ","))

/-- The text of a variant: its tag and what it carries. -/
inductive VariantText : SumVariant → Code → Prop
  | bare {tag : String} : VariantText ⟨tag, []⟩ (word tag ++ flat ",")
  | carrying {tag : String} {e : String × CodeType} {es : List (String × CodeType)} {members : Code}
      (h : Pieces MemberText (e :: es) members) :
      VariantText ⟨tag, e :: es⟩ (word tag ++ (braces members ++ flat ","))

theorem Field.text (f : Field) : FieldText f f.code := by
  obtain ⟨ident, wire, t, required, format⟩ := f
  have hformat : (format.map fun s => docAttrs ("Format: `" ++ s ++ "`")).getD [] =
      formatText format := by
    cases format <;> rfl
  have hend : ∀ args : Code, flat "#" ++ Code.brackets (flat "serde" ++ Code.parens args) =
      flat "#[serde(" ++ args ++ flat ")]" := by
    intro args
    have hopen : flat "#[serde(" = flat "#" ++ (.mark '[' :: flat "serde" ++ [.mark '(']) := rfl
    have hclose : flat ")]" = [.mark ')', .mark ']'] := rfl
    rw [hopen, hclose]
    simp [Code.brackets, Code.parens]
  have hrename : flat "#[serde(rename =" = flat "#[serde(" ++ flat "rename =" := rfl
  have hpub : flat ")] pub" = flat ")]" ++ flat "pub" := rfl
  have htype : TypeText .models t (t.code .models) := t.text .models
  cases required with
  | true =>
      have hcode : (Field.mk ident wire t true format).code = formatText format ++
          (flat "#[serde(rename =" ++ literal wire ++
            (flat ")] pub" ++ word ident ++ (flat ":" ++ t.code .models ++ flat ","))) := by
        rw [Field.code, fieldAttr, hformat, hend, hrename, hpub]
        simp only [if_true, List.append_assoc]
      rw [hcode]
      exact .required htype
  | false =>
      have hcode : (Field.mk ident wire t false format).code = formatText format ++
          (flat "#[serde(rename =" ++ literal wire ++
            (flat ", default, skip_serializing_if =" ++ literal "Option::is_none" ++
              (flat ")] pub" ++ word ident ++
                (flat ":" ++ t.code .models ++ flat ",")))) := by
        rw [Field.code, fieldAttr, hformat, hend, hrename, hpub]
        simp only [Bool.false_eq_true, if_false, List.append_assoc]
      rw [hcode]
      exact .optional htype

theorem SumVariant.text (v : SumVariant) : VariantText v v.code := by
  obtain ⟨tag, members⟩ := v
  cases members with
  | nil => exact .bare
  | cons e es =>
      have hmembers : Pieces MemberText (e :: es) ((e :: es).flatMap fun e =>
          word e.1 ++ (flat ":" ++ e.2.code .models ++ flat ",")) :=
        .flatMap (fun e => .member (e.2.text .models)) _
      have hcode : (SumVariant.mk tag (e :: es)).code = word tag ++
          (braces ((e :: es).flatMap fun e =>
            word e.1 ++ (flat ":" ++ e.2.code .models ++ flat ",")) ++ flat ",") := by
        simp only [SumVariant.code, List.isEmpty_cons, Bool.false_eq_true, if_false,
          List.append_assoc]
      rw [hcode]
      exact .carrying hmembers

/-! ## Models -/

/-- What stands before a record that is written and read. -/
def recordStart : Code :=
  flat "#[derive(Debug, Clone, PartialEq, ::serde::Serialize, ::serde::Deserialize)] pub struct"

/-- What stands before an open record, which has a default as well. -/
def openStart : Code :=
  flat "#[derive(Debug, Clone, Default, PartialEq, ::serde::Serialize, ::serde::Deserialize)]" ++
    flat "pub struct"

/-- The text of a model. -/
inductive ModelText (name : String) : ModelShape → Code → Prop
  | upload :
      ModelText name .upload
        (docAttrs ("A file received as one part of a multipart request.\n\n" ++
            "`file` is deleted once the request that produced it completes.") ++
          (recordStart ++ word name ++
            (braces (flat "pub name: String, pub file: ::std::path::PathBuf," ++
                flat "pub content_type: String,") ++
              (flat "impl From<::bindery::UploadedFile> for" ++ word name ++
                braces (flat "fn from(upload: ::bindery::UploadedFile) -> Self" ++
                  braces (flat "Self" ++ braces (flat "name: upload.name, file: upload.path," ++
                    flat "content_type: upload.content_type,")))))))
  | openRecord :
      ModelText name .openRecord
        (openStart ++ word name ++
          braces (flat "#[serde(flatten)] pub additional_properties:" ++
            flat "::std::collections::HashMap<String, ::serde_json::Value>,"))
  | record {fields : List Field} {text : Code} (h : Pieces FieldText fields text) :
      ModelText name (.record fields) (recordStart ++ word name ++ braces text)
  | sum {variants : List SumVariant} {text : Code} (h : Pieces VariantText variants text) :
      ModelText name (.sum variants)
        (flat "#[derive(Debug, Clone, PartialEq)] pub enum" ++ word name ++ braces text)

theorem recordHead_eq (name : String) :
    recordHead name "Debug, Clone, PartialEq, ::serde::Serialize, ::serde::Deserialize" =
      recordStart ++ word name := by
  have hstart : flat "#" ++ Code.brackets (flat "derive" ++ Code.parens
      (flat "Debug, Clone, PartialEq, ::serde::Serialize, ::serde::Deserialize")) ++
      flat "pub struct" = recordStart := by
    decide +kernel
  rw [recordHead, hstart]

theorem openHead_eq (name : String) :
    recordHead name "Debug, Clone, Default, PartialEq, ::serde::Serialize, ::serde::Deserialize" =
      openStart ++ word name := by
  have hstart : flat "#" ++ Code.brackets (flat "derive" ++ Code.parens
      (flat "Debug, Clone, Default, PartialEq, ::serde::Serialize, ::serde::Deserialize")) ++
      flat "pub struct" = openStart := by
    decide +kernel
  rw [recordHead, hstart]

theorem uploadCode_text (name : String) : ModelText name .upload (uploadCode name) := by
  have hfields : flat
    "pub name: String, pub file: ::std::path::PathBuf, pub content_type: String," =
      flat "pub name: String, pub file: ::std::path::PathBuf," ++
        flat "pub content_type: String," := by
    decide +kernel
  have hself : flat "name: upload.name, file: upload.path, content_type: upload.content_type," =
      flat "name: upload.name, file: upload.path," ++
        flat "content_type: upload.content_type," := by
    decide +kernel
  have htext := @ModelText.upload name
  unfold uploadCode
  rw [recordHead_eq, hfields, hself]
  simp only [List.append_assoc] at htext ⊢
  exact htext

theorem Model.text (m : Model) : ModelText m.name m.shape m.code := by
  obtain ⟨name, descriptor, shape⟩ := m
  cases shape with
  | upload => exact uploadCode_text name
  | openRecord =>
      have hmap : flat "::std::collections::HashMap<String, ::serde_json::Value>," =
          CodeType.code .models .dynamicMap ++ flat "," := by
        decide +kernel
      rw [Model.code, openHead_eq, List.append_assoc (flat _) (CodeType.code _ _), ← hmap]
      exact .openRecord
  | record fields =>
      rw [Model.code, recordHead_eq]
      exact .record (.flatMap Field.text fields)
  | sum variants => exact .sum (.flatMap SumVariant.text variants)

section ModelText

variable {name : String} {c : Code}

/-- The fields of a record stand in its text. -/
theorem ModelText.field {fields : List Field} (h : ModelText name (.record fields) c) {f : Field}
    (hf : f ∈ fields) : ∃ text, FieldText f text ∧ text <:+: c := by
  cases h with
  | record h =>
      obtain ⟨text, htext, hpart⟩ := h.exists_infix hf
      exact ⟨text, htext, List.infix_append_of_infix_right (hpart.trans (Code.infix_braces _))⟩

/-- The variants of a sum stand in its text. -/
theorem ModelText.variant {variants : List SumVariant} (h : ModelText name (.sum variants) c)
    {v : SumVariant} (hv : v ∈ variants) : ∃ text, VariantText v text ∧ text <:+: c := by
  cases h with
  | sum h =>
      obtain ⟨text, htext, hpart⟩ := h.exists_infix hv
      exact ⟨text, htext, List.infix_append_of_infix_right (hpart.trans (Code.infix_braces _))⟩

end ModelText

/-! ## The types that code declares -/

/-- The type that is declared where code begins. -/
def declaredHere : Code → Option String
  | .word first :: .word second :: .word name :: _ =>
    if first = "pub" ∧ (second = "struct" ∨ second = "enum") then some name else none
  | _ => none

/-- The types that code declares: all that stand behind `pub struct` or `pub enum`. -/
def declaredTypes : Code → List String
  | [] => []
  | t :: c => (declaredHere (t :: c)).toList ++ declaredTypes c

section DeclaredTypes

variable {name : String} {c d : Code}

/-- A declaration does not reach over a mark. -/
theorem declaredHere_append_mark (t : Token) (c : Code) (m : Char) (d : Code) :
    declaredHere (t :: (c ++ .mark m :: d)) = declaredHere (t :: c) := by
  rcases c with _ | ⟨u, _ | ⟨v, c⟩⟩
  · cases t <;> rfl
  · cases t <;> cases u <;> rfl
  · cases t <;> cases u <;> cases v <;> rfl

theorem declaredTypes_append_mark (c : Code) (m : Char) (d : Code) :
    declaredTypes (c ++ .mark m :: d) = declaredTypes c ++ declaredTypes d := by
  induction c with
  | nil => rfl
  | cons t c ih =>
      rw [List.cons_append, declaredTypes, declaredTypes, declaredHere_append_mark, ih,
        List.append_assoc]

/-- Code that begins with a mark declares what it declares by itself. -/
theorem declaredTypes_append_of_head (h : ∃ m e, d = .mark m :: e) (c : Code) :
    declaredTypes (c ++ d) = declaredTypes c ++ declaredTypes d := by
  obtain ⟨m, e, rfl⟩ := h
  exact declaredTypes_append_mark c m e

/-- Code behind a mark declares what it declares by itself. -/
theorem declaredTypes_append_of_last (h : ∃ e m, c = e ++ [.mark m]) (d : Code) :
    declaredTypes (c ++ d) = declaredTypes c ++ declaredTypes d := by
  obtain ⟨e, m, rfl⟩ := h
  rw [List.append_assoc, List.singleton_append, declaredTypes_append_mark,
    declaredTypes_append_mark, declaredTypes, List.append_nil]

theorem declaredTypes_braces (c d e : Code) :
    declaredTypes (c ++ (braces d ++ e)) =
      declaredTypes c ++ (declaredTypes d ++ declaredTypes e) := by
  have hcode : c ++ (braces d ++ e) = c ++ .mark '\x7b' :: (d ++ .mark '\x7d' :: e) := by
    simp [braces]
  rw [hcode, declaredTypes_append_mark, declaredTypes_append_mark]

/-- Code that ends in a mark and declares nothing. -/
def Undeclaring (c : Code) : Prop :=
  declaredTypes c = [] ∧ ∃ e m, c = e ++ [.mark m]

theorem declaredTypes_flatten {texts : List Code} (h : ∀ c ∈ texts, Undeclaring c) :
    declaredTypes texts.flatten = [] := by
  induction texts with
  | nil => rfl
  | cons c texts ih =>
      rw [List.forall_mem_cons] at h
      obtain ⟨⟨hnone, hlast⟩, hrest⟩ := h
      rw [List.flatten_cons, declaredTypes_append_of_last hlast, hnone, ih hrest]
      rfl

theorem declaredTypes_pieces {α : Type} {Text : α → Code → Prop} {xs : List α}
    (h : Pieces Text xs c) (hText : ∀ x c, Text x c → Undeclaring c) : declaredTypes c = [] := by
  obtain ⟨texts, htexts, rfl⟩ := h
  refine declaredTypes_flatten fun text htext => ?_
  obtain ⟨x, -, hx⟩ := exists_of_mem_right htexts htext
  exact hText x text hx

theorem declaredTypes_docAttrs (s : String) : declaredTypes (docAttrs s) = [] := by
  unfold docAttrs
  rw [List.flatMap_def]
  refine declaredTypes_flatten fun c hc => ?_
  obtain ⟨line, -, rfl⟩ := List.mem_map.1 hc
  exact ⟨rfl, [.mark '#', .mark '[', .word "doc", .mark '=', .text _], ']', rfl⟩

theorem TypeText.declaredTypes_eq {scope : Scope} {t : CodeType} (h : TypeText scope t c) :
    declaredTypes c = [] := by
  have hangles : ∀ (w : String) (type : Code), declaredTypes type = [] →
      declaredTypes (word w ++ angles type) = [] := by
    intro w type htype
    have hcode : word w ++ angles type = [.word w] ++ .mark '<' :: (type ++ .mark '>' :: []) := rfl
    rw [hcode, declaredTypes_append_mark, declaredTypes_append_mark, htype]
    rfl
  induction h with
  | list _ ih => exact hangles _ _ ih
  | boxed _ ih => exact hangles _ _ ih
  | optional _ ih => exact hangles _ _ ih
  | _ => rfl

/-- An identifier with its type declares nothing, whatever stands before it. -/
theorem declaredTypes_typed {scope : Scope} {t : CodeType} {type : Code}
    (h : TypeText scope t type) (c : Code) :
    declaredTypes (c ++ (flat ":" ++ type ++ flat ",")) = declaredTypes c := by
  have hcode : c ++ (flat ":" ++ type ++ flat ",") =
      c ++ .mark ':' :: (type ++ .mark ',' :: []) := rfl
  rw [hcode, declaredTypes_append_mark, declaredTypes_append_mark, h.declaredTypes_eq]
  exact List.append_nil _

theorem FieldText.undeclaring {f : Field} (h : FieldText f c) : Undeclaring c := by
  have hformat : ∀ (format : Option String) (d : Code), (∃ m e, d = .mark m :: e) →
      declaredTypes (formatText format ++ d) = declaredTypes d := by
    intro format d hd
    rw [declaredTypes_append_of_head hd]
    cases format with
    | none => rfl
    | some s => rw [formatText, declaredTypes_docAttrs, List.nil_append]
  cases h with
  | @required ident wire t format type htype =>
      have hwire : ∃ m e, flat "#[serde(rename =" ++ literal wire ++
          (flat ")] pub" ++ word ident ++ (flat ":" ++ type ++ flat ",")) = .mark m :: e :=
        ⟨'#', _, rfl⟩
      refine ⟨?_, _, ',', by simp only [← List.append_assoc]; rfl⟩
      rw [hformat format _ hwire, ← List.append_assoc, declaredTypes_typed htype]
      rfl
  | @optional ident wire t format type htype =>
      have hwire : ∃ m e, flat "#[serde(rename =" ++ literal wire ++
          (flat ", default, skip_serializing_if =" ++ literal "Option::is_none" ++
            (flat ")] pub" ++ word ident ++ (flat ":" ++ type ++ flat ","))) = .mark m :: e :=
        ⟨'#', _, rfl⟩
      refine ⟨?_, _, ',', by simp only [← List.append_assoc]; rfl⟩
      rw [hformat format _ hwire, ← List.append_assoc, ← List.append_assoc,
        declaredTypes_typed htype]
      rfl

theorem MemberText.undeclaring {e : String × CodeType} (h : MemberText e c) : Undeclaring c := by
  cases h with
  | @member ident t type htype =>
      refine ⟨?_, _, ',', by simp only [← List.append_assoc]; rfl⟩
      rw [declaredTypes_typed htype]
      rfl

theorem VariantText.undeclaring {v : SumVariant} (h : VariantText v c) : Undeclaring c := by
  cases h with
  | bare => exact ⟨rfl, word _, ',', rfl⟩
  | carrying hmembers =>
      refine ⟨?_, _, ',', by simp only [← List.append_assoc]; rfl⟩
      rw [declaredTypes_braces,
        declaredTypes_pieces hmembers fun _ _ hmember => hmember.undeclaring]
      rfl

/-- The name behind the last mark belongs to a declaration if `pub struct` or `pub enum` stands
between. -/
theorem declaredTypes_named {start : Code} {words : List String} (name : String)
    (h : ∃ c m, start = c ++ .mark m :: words.map .word ∧ declaredTypes c = []) :
    declaredTypes (start ++ word name) = declaredTypes (words.map .word ++ word name) := by
  obtain ⟨c, m, rfl, hnone⟩ := h
  rw [List.append_assoc, List.cons_append, declaredTypes_append_mark, hnone, List.nil_append]

theorem declaredTypes_recordStart (name : String) :
    declaredTypes (recordStart ++ word name) = [name] := by
  have hstart : ∃ c m, recordStart = c ++ .mark m :: ["pub", "struct"].map .word ∧
      declaredTypes c = [] :=
    ⟨recordStart.take (recordStart.length - 3), ']', by decide +kernel⟩
  rw [declaredTypes_named name hstart]
  rfl

theorem declaredTypes_openStart (name : String) :
    declaredTypes (openStart ++ word name) = [name] := by
  have hstart : ∃ c m, openStart = c ++ .mark m :: ["pub", "struct"].map .word ∧
      declaredTypes c = [] :=
    ⟨openStart.take (openStart.length - 3), ']', by decide +kernel⟩
  rw [declaredTypes_named name hstart]
  rfl

theorem declaredTypes_sumStart (name : String) :
    declaredTypes (flat "#[derive(Debug, Clone, PartialEq)] pub enum" ++ word name) = [name] := by
  have hstart : ∃ c m, flat "#[derive(Debug, Clone, PartialEq)] pub enum" =
      c ++ .mark m :: ["pub", "enum"].map .word ∧ declaredTypes c = [] :=
    ⟨flat "#[derive(Debug, Clone, PartialEq)", ']', by decide +kernel⟩
  rw [declaredTypes_named name hstart]
  rfl

/-- What is implemented for a type declares none. -/
theorem declaredTypes_implementation (name : String) :
    declaredTypes (flat "impl From<::bindery::UploadedFile> for" ++ word name) = [] := by
  have hstart : ∃ c m, flat "impl From<::bindery::UploadedFile> for" =
      c ++ .mark m :: ["for"].map .word ∧ declaredTypes c = [] :=
    ⟨flat "impl From<::bindery::UploadedFile", '>', by decide +kernel⟩
  rw [declaredTypes_named name hstart]
  rfl

/-- The text of a model declares one type, which has the model's name. -/
theorem ModelText.declaredTypes_eq {shape : ModelShape} (h : ModelText name shape c) :
    declaredTypes c = [name] := by
  have hbody : ∀ start body : Code, declaredTypes body = [] →
      declaredTypes (start ++ braces body) = declaredTypes start := by
    intro start body hnone
    rw [← List.append_nil (braces body), declaredTypes_braces, hnone]
    exact List.append_nil _
  cases h with
  | upload =>
      have hdoc : ∀ d, ∃ m e, recordStart ++ word name ++ d = .mark m :: e := by
        have hfirst : ∃ e, recordStart = .mark '#' :: e := ⟨recordStart.tail, by decide +kernel⟩
        obtain ⟨e, hfirst⟩ := hfirst
        rw [hfirst]
        exact fun d => ⟨'#', _, rfl⟩
      have hfields : declaredTypes (flat "pub name: String, pub file: ::std::path::PathBuf," ++
          flat "pub content_type: String,") = [] := by
        decide +kernel
      rw [declaredTypes_append_of_head (hdoc _), declaredTypes_docAttrs, declaredTypes_braces,
        declaredTypes_recordStart, hfields, hbody, declaredTypes_implementation]
      · rfl
      · decide +kernel
  | openRecord =>
      rw [hbody, declaredTypes_openStart]
      decide +kernel
  | record hfields =>
      rw [hbody, declaredTypes_recordStart]
      exact declaredTypes_pieces hfields fun _ _ hfield => hfield.undeclaring
  | sum hvariants =>
      rw [hbody, declaredTypes_sumStart]
      exact declaredTypes_pieces hvariants fun _ _ hvariant => hvariant.undeclaring

end DeclaredTypes

end Emit
end ApiContract
