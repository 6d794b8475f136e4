import ApiContract.Assoc
import ApiContract.Disk.Path

/-!
# Arguments of the command line

An option has a long name after two dashes and may have a letter after one.  A value follows its
option, or an equals sign, or stands right behind the letter; letters without values may share one
dash.

**Results:** `Request.ofArgs` reads arguments from left to right.  The first that cannot be read
decides, and a question for help or for the version is answered as soon as it is met.
-/

namespace ApiContract
namespace CommandLine

/-- An option. -/
inductive Choice
  | spec
  | output
  | namePrefix
  | name
  | client
  | bundle
  | config
  | dryRun
  | verbose
  | help
  | version
deriving DecidableEq, Inhabited

namespace Choice

/-- All options. -/
def all : List Choice :=
  [spec, output, namePrefix, name, client, bundle, config, dryRun, verbose, help, version]

/-- The name after two dashes. -/
def long : Choice → String
  | spec => "spec"
  | output => "output"
  | namePrefix => "name-prefix"
  | name => "name"
  | client => "client"
  | bundle => "bundle"
  | config => "config"
  | dryRun => "dry-run"
  | verbose => "verbose"
  | help => "help"
  | version => "version"

/-- The letter after one dash. -/
def letter? : Choice → Option Char
  | spec => some 's'
  | output => some 'o'
  | namePrefix => some 'p'
  | name => some 'n'
  | client => none
  | bundle => none
  | config => some 'c'
  | dryRun => none
  | verbose => some 'v'
  | help => some 'h'
  | version => some 'V'

/-- Whether an option has a value. -/
def hasValue : Choice → Bool
  | spec | output | namePrefix | name | config => true
  | _ => false

/-- Whether the value of an option is a path. -/
def isPath : Choice → Bool
  | spec | output | config => true
  | _ => false

/-- The option of a long name. -/
def ofLong? (s : List Char) : Option Choice :=
  all.find? (·.long.toList == s)

/-- The option of a letter. -/
def ofLetter? (c : Char) : Option Choice :=
  all.find? (·.letter? == some c)

end Choice

/-- Why arguments are refused. -/
inductive UsageError
  /-- An argument is no option. -/
  | unexpected (arg : String)
  /-- An option lacks its value, or has an empty one where a path is needed. -/
  | missingValue (c : Choice)
  /-- An option has a value that it does not take. -/
  | needlessValue (c : Choice)
  /-- An option is given twice. -/
  | repeated (c : Choice)
  /-- Two options exclude each other. -/
  | conflict (c d : Choice)
  /-- An option is needed and not given. -/
  | required (c : Choice)
deriving DecidableEq, Inhabited

/-- The wording of a refusal. -/
def UsageError.message : UsageError → String
  | unexpected arg => s!"unexpected argument '{arg}' found"
  | missingValue c => s!"a value is required for '--{c.long}' but none was supplied"
  | needlessValue c => s!"unexpected value for '--{c.long}' found"
  | repeated c => s!"the argument '--{c.long}' cannot be used multiple times"
  | conflict c d => s!"the argument '--{c.long}' cannot be used with '--{d.long}'"
  | required c => s!"the argument '--{c.long}' was not provided"

/-- Options as they are given, with their values. -/
structure Arguments where
  /-- Values by option. -/
  values : Assoc Choice String := []
  /-- Options without values. -/
  flags : List Choice := []
deriving Inhabited

namespace Arguments

/-- The value of an option. -/
def value? (a : Arguments) (c : Choice) : Option String :=
  a.values.get? c

/-- Whether an option is given. -/
def has (a : Arguments) (c : Choice) : Bool :=
  (a.value? c).isSome || a.flags.contains c

/-- Takes an option without a value; only the wish for detail may be repeated. -/
def takeFlag (a : Arguments) (c : Choice) : Except UsageError Arguments :=
  if c ≠ .verbose ∧ a.has c then .error (.repeated c)
  else .ok { a with flags := c :: a.flags }

/-- Takes an option with its value. -/
def takeValue (a : Arguments) (c : Choice) (v : String) : Except UsageError Arguments :=
  if a.has c then .error (.repeated c)
  else if c.isPath ∧ v.isEmpty then .error (.missingValue c)
  else .ok { a with values := a.values.put c v }

/-- Refuses options that exclude each other, and fails if a needed one is missing. -/
def check (a : Arguments) : Except UsageError Arguments :=
  if a.has .config then
    if a.has .spec then .error (.conflict .config .spec)
    else if a.has .output then .error (.conflict .config .output)
    else .ok a
  else if !a.has .spec then .error (.required .spec)
  else if !a.has .output then .error (.required .output)
  else .ok a

end Arguments

/-- What the command is asked to do. -/
inductive Request
  | generate (a : Arguments)
  | help
  | version
deriving Inhabited

namespace Request

/-- Whether an argument begins like an option. -/
def isDashed (arg : String) : Bool :=
  match arg.toList with
  | '-' :: _ :: _ => true
  | _ => false

/-- What is left to do with an argument: a value may still be missing, or a question ends the
reading. -/
inductive Step
  | go (a : Arguments)
  | needs (a : Arguments) (c : Choice)
  | stop (r : Request)

/-- Takes an option that has no value. -/
def flag (a : Arguments) (c : Choice) : Except UsageError Step :=
  match c with
  | .help => .ok (.stop .help)
  | .version => .ok (.stop .version)
  | c => (a.takeFlag c).map .go

/-- Reads the letters after one dash. -/
def letters (arg : String) (a : Arguments) : List Char → Except UsageError Step
  | [] => .ok (.go a)
  | l :: rest =>
    match Choice.ofLetter? l with
    | none => .error (.unexpected arg)
    | some c =>
      if c.hasValue then
        match rest with
        | [] => .ok (.needs a c)
        | '=' :: v => (a.takeValue c (String.ofList v)).map .go
        | v => (a.takeValue c (String.ofList v)).map .go
      else
        match flag a c with
        | .ok (.go a) => letters arg a rest
        | r => r

/-- Reads a long name, and a value after an equals sign. -/
def longName (arg : String) (a : Arguments) (s : List Char) : Except UsageError Step :=
  let attached := (s.dropWhile (· ≠ '=')).tail?.map String.ofList
  match Choice.ofLong? (s.takeWhile (· ≠ '=')), attached with
  | none, _ => .error (.unexpected arg)
  | some c, some v =>
    if c.hasValue then (a.takeValue c v).map .go else .error (.needlessValue c)
  | some c, none => if c.hasValue then .ok (.needs a c) else flag a c

/-- Reads one argument. -/
def step (a : Arguments) (arg : String) : Except UsageError Step :=
  match arg.toList with
  | '-' :: '-' :: s => longName arg a s
  | '-' :: l :: ls => letters arg a (l :: ls)
  | _ => .error (.unexpected arg)

/-- Reads arguments after those that are already taken. -/
def after (a : Arguments) : List String → Except UsageError Request
  | [] => a.check.map .generate
  | arg :: rest =>
    if arg = "--" then
      match rest with
      | [] => a.check.map .generate
      | extra :: _ => .error (.unexpected extra)
    else
      match step a arg with
      | .error e => .error e
      | .ok (.stop r) => .ok r
      | .ok (.go a) => after a rest
      | .ok (.needs a c) =>
        match rest with
        | [] => .error (.missingValue c)
        | v :: rest =>
          if isDashed v then .error (.missingValue c)
          else
            match a.takeValue c v with
            | .error e => .error e
            | .ok a => after a rest

/-- Reads arguments. -/
def ofArgs (args : List String) : Except UsageError Request :=
  after {} args

end Request
end CommandLine
end ApiContract
