import ApiContract.Disk.Basic
import ApiContract.Document.Reader

/-!
# Documents from files

The extension of a path decides how the file is read: `json` in small letters is JSON, everything
else is YAML.
-/

namespace ApiContract

/-- The language that a document is written in. -/
inductive Dialect
  | json
  | yaml
deriving DecidableEq, Inhabited

/-- Why a document cannot be loaded. -/
inductive LoadError
  /-- There is no such file, or it holds no text. -/
  | unreadable
  /-- The text is not in the language, or has no shape of a document. -/
  | malformed (dialect : Dialect)
deriving DecidableEq, Inhabited

namespace Document

/-- The language of the file at a path. -/
def dialectOf (path : FilePath) : Dialect :=
  if path.extension? = some "json" then .json else .yaml

/-- Reads a document in a language. -/
def ofText (dialect : Dialect) (s : String) : Except LoadError Document :=
  let read :=
    match dialect with
    | .json => ofJson? s
    | .yaml => ofYaml? s
  match read with
  | some d => .ok d
  | none => .error (.malformed dialect)

/-- Reads the document in a file. -/
def load (d : Disk) (path : FilePath) : Except LoadError Document :=
  match (d.read path).toOption.bind String.fromUTF8? with
  | some s => ofText (dialectOf path) s
  | none => .error .unreadable

end Document
end ApiContract
