import FeSyntax.Session

/-
  This file defines the command line: its options, and how
  arguments are read from left to right.  An option with a
  value takes it from the same argument or from the next
  one, and no option may be repeated.

  Key definitions include:
    * `OutputFormat`
    * `Options`
    * `UsageError`
    * `Flag`
    * `Setting`
    * `Request`
    * `Request.ofArguments`
-/

namespace FeSyntax

------------------------------------------------------------
-- Options
------------------------------------------------------------

/- What is printed for a source text. -/
inductive OutputFormat where
  | sexp
  | json
  | tokens
  | highlight
deriving DecidableEq, Repr

namespace OutputFormat

/- The format with a name, in lower case. -/
def ofName? : String → Option OutputFormat
  | "sexp" => some sexp
  | "json" => some json
  | "tokens" => some tokens
  | "highlight" => some highlight
  | _ => none

end OutputFormat

/- The options that were given, and the files. -/
structure Options where
  files : List String
  format : Option OutputFormat
  limit : Option Nat
  artifact : Option String
  languageInfo : Bool
  dumpArtifact : Bool
  verbose : Bool
deriving DecidableEq, Repr

namespace Options

/- No options and no files. -/
def empty : Options where
  files := []
  format := none
  limit := none
  artifact := none
  languageInfo := false
  dumpArtifact := false
  verbose := false

end Options

------------------------------------------------------------
-- Usage Errors
------------------------------------------------------------

/- Why arguments are refused. -/
inductive UsageError where
  | unknownOption (option : String)
  | repeatedOption (option : String)
  | missingValue (option : String)
  | unexpectedValue (option value : String)
  | invalidValue (option value : String)
  | emptyFileName
deriving DecidableEq, Repr

namespace UsageError

/- The wording of a usage error. -/
def message : UsageError → String
  | unknownOption option =>
      "unknown option " ++ option
  | repeatedOption option =>
      "the option " ++ option ++ " is given twice"
  | missingValue option =>
      "the option " ++ option ++ " needs a value"
  | unexpectedValue option value =>
      "the option " ++ option ++ " takes no value, got " ++
        value
  | invalidValue option value =>
      "invalid value for " ++ option ++ ": " ++ value
  | emptyFileName => "a file name must not be empty"

end UsageError

------------------------------------------------------------
-- Flags
------------------------------------------------------------

/- An option without a value. -/
inductive Flag where
  | languageInfo
  | dumpArtifact
  | verbose
deriving DecidableEq, Repr

namespace Flag

/- How a flag is written. -/
def long : Flag → String
  | languageInfo => "--language-info"
  | dumpArtifact => "--dump-artifact"
  | verbose => "--verbose"

/- Raise a flag that is not raised yet. -/
def raise
    (flag : Flag)
    (o : Options) : Except UsageError Options :=
  let isRaised :=
    match flag with
    | languageInfo => o.languageInfo
    | dumpArtifact => o.dumpArtifact
    | verbose => o.verbose
  if isRaised then
    .error (.repeatedOption flag.long)
  else
    match flag with
    | languageInfo => .ok { o with languageInfo := true }
    | dumpArtifact => .ok { o with dumpArtifact := true }
    | verbose => .ok { o with verbose := true }

end Flag

------------------------------------------------------------
-- Settings
------------------------------------------------------------

/- An option with a value. -/
inductive Setting where
  | format
  | limit
  | artifact
deriving DecidableEq, Repr

/- A nesting limit, with an optional plus sign in front. -/
def parseLimit?
    (value : String) : Option Nat :=
  match value.toList with
  | '+' :: digits => Text.decimalBelow? Session.limitBound digits
  | digits => Text.decimalBelow? Session.limitBound digits

namespace Setting

/- How a setting is written. -/
def long : Setting → String
  | format => "--format"
  | limit => "--max-depth"
  | artifact => "--artifact"

/- A value that the setting `s` cannot have. -/
def refuse
    {α : Type}
    (s : Setting)
    (value : String) : Except UsageError α :=
  .error (.invalidValue s.long value)

/- Whether a setting has a value already. -/
def isSet
    (s : Setting)
    (o : Options) : Bool :=
  match s with
  | format => o.format.isSome
  | limit => o.limit.isSome
  | artifact => o.artifact.isSome

/- Read a value for a setting. -/
def assign
    (s : Setting)
    (value : String)
    (o : Options) : Except UsageError Options :=
  match s with
  | format =>
      match OutputFormat.ofName? value with
      | some f => .ok { o with format := some f }
      | none => s.refuse value
  | limit =>
      match parseLimit? value with
      | some n => .ok { o with limit := some n }
      | none => s.refuse value
  | artifact =>
      if value.isEmpty then
        s.refuse value
      else
        .ok { o with artifact := some value }

/- Give a setting its only value. -/
def set
    (s : Setting)
    (value : String)
    (o : Options) : Except UsageError Options := do
  let assigned ← s.assign value o
  if s.isSet o then
    .error (.repeatedOption s.long)
  else
    pure assigned

end Setting

------------------------------------------------------------
-- Single Arguments
------------------------------------------------------------

/- What is asked for: help, or a run with options. -/
inductive Request where
  | help
  | run (options : Options)
deriving DecidableEq, Repr

/- What an argument leads to. -/
inductive ArgumentStep where
  | next (options : Options)
  | wants (setting : Setting) (options : Options)
  | help
deriving DecidableEq, Repr

/- An option with its long name. -/
inductive LongOption where
  | flag (flag : Flag)
  | setting (setting : Setting)
  | help
deriving DecidableEq, Repr

namespace LongOption

/- The option with a long name. -/
def ofName? : String → Option LongOption
  | "--format" => some (setting .format)
  | "--max-depth" => some (setting .limit)
  | "--artifact" => some (setting .artifact)
  | "--language-info" => some (flag .languageInfo)
  | "--dump-artifact" => some (flag .dumpArtifact)
  | "--verbose" => some (flag .verbose)
  | "--help" => some help
  | _ => none

end LongOption

namespace ArgumentStep

/- Give a setting the value in its own argument, if any. -/
def give
    (s : Setting)
    (value : Option String)
    (o : Options) : Except UsageError ArgumentStep :=
  match value with
  | some v => next <$> s.set v o
  | none => .ok (wants s o)

/-
  Read short options from one argument.  What follows the
  letter of a setting is its value, behind an equals sign or
  not.
-/
def short
    (o : Options) :
    List Char → Except UsageError ArgumentStep
  | [] => .ok (next o)
  | 'v' :: cs => do
      let raised ← Flag.verbose.raise o
      short raised cs
  | 'h' :: _ => .ok help
  | ['f'] => .ok (wants .format o)
  | 'f' :: '=' :: cs =>
      give .format (some (String.ofList cs)) o
  | 'f' :: cs => give .format (some (String.ofList cs)) o
  | c :: _ => .error (.unknownOption ("-" ++ c.toString))

/- The name of a long option, and the value behind it. -/
def splitLong
    (argument : List Char) : String × Option String :=
  let name := argument.takeWhile (· ≠ '=')
  match argument.dropWhile (· ≠ '=') with
  | [] => (String.ofList name, none)
  | _ :: value =>
      (String.ofList name, some (String.ofList value))

/- Read a long option with its optional value. -/
def long
    (argument : List Char)
    (o : Options) : Except UsageError ArgumentStep :=
  let (name, value) := splitLong argument
  match LongOption.ofName? name, value with
  | none, _ => .error (.unknownOption name)
  | some (.setting s), value => give s value o
  | some (.flag f), none => next <$> f.raise o
  | some .help, none => .ok help
  | some _, some v => .error (.unexpectedValue name v)

/- Add a file. -/
def file
    (name : String)
    (o : Options) : Except UsageError ArgumentStep :=
  if name.isEmpty then
    .error .emptyFileName
  else
    .ok (next { o with files := o.files ++ [name] })

/- Read an argument where no value is due. -/
def ofArgument
    (argument : String)
    (o : Options) : Except UsageError ArgumentStep :=
  match argument.toList with
  | '-' :: '-' :: _ => long argument.toList o
  | '-' :: c :: cs => short o (c :: cs)
  | _ => file argument o

end ArgumentStep

------------------------------------------------------------
-- Argument Lists
------------------------------------------------------------

/-
  An argument that cannot be the value of the one before.  A
  single hyphen is a value.
-/
def looksLikeOption
    (argument : String) : Bool :=
  match argument.toList with
  | '-' :: _ :: _ => true
  | _ => false

namespace Request

/- Add files; every argument is one. -/
def addFiles
    (o : Options) : List String → Except UsageError Request
  | [] => .ok (run o)
  | name :: names =>
      if name.isEmpty then
        .error .emptyFileName
      else
        addFiles { o with files := o.files ++ [name] } names

mutual

/- Read arguments where no value is due. -/
def readArguments
    (o : Options) : List String → Except UsageError Request
  | [] => .ok (run o)
  | "--" :: names => addFiles o names
  | argument :: rest => do
      match ← ArgumentStep.ofArgument argument o with
      | .next o => readArguments o rest
      | .wants s o => readValue s o rest
      | .help => pure help

/- Read arguments of which the first has to be a value. -/
def readValue
    (s : Setting)
    (o : Options) : List String → Except UsageError Request
  | [] => .error (.missingValue s.long)
  | value :: rest =>
      if looksLikeOption value then
        .error (.missingValue s.long)
      else do
        let o ← s.set value o
        readArguments o rest

end

/- What arguments ask for. -/
def ofArguments
    (arguments : List String) : Except UsageError Request :=
  readArguments .empty arguments

end Request

end FeSyntax
