import FeSyntax.Command.Render

/-
  This file defines a whole run of the command as a function
  of its options, its standard input and the files that it
  can read.  The exit code is 2 when the grammar cannot be
  loaded, 1 when a source text fails, and 0 otherwise.

  Key definitions include:
    * `Surroundings`
    * `CommandResult`
    * `LoadError`
    * `Options.loadGrammar`
    * `Options.openSession`
    * `Progress`
    * `Progress.next`
    * `Options.run`
-/

namespace FeSyntax

------------------------------------------------------------
-- Surroundings And Results
------------------------------------------------------------

/- The standard input, and the contents of files. -/
structure Surroundings where
  input : Except ReadError ByteArray
  readFile : String → Except ReadError ByteArray

/- An exit code, and what is printed on both channels. -/
structure CommandResult where
  code : Nat
  stdout : String
  stderr : String
deriving DecidableEq, Repr

/- The text that bytes encode. -/
def decodeText
    (bytes : ByteArray) : Except ReadError String :=
  match String.fromUTF8? bytes with
  | some text => .ok text
  | none => .error .notUtf8

namespace Surroundings

/- The standard input as a text. -/
def inputText
    (w : Surroundings) : Except ReadError String := do
  decodeText (← w.input)

/- A file as a text. -/
def fileText
    (w : Surroundings)
    (path : String) : Except ReadError String := do
  decodeText (← w.readFile path)

end Surroundings

------------------------------------------------------------
-- Loading The Grammar
------------------------------------------------------------

/- Why the grammar cannot be loaded. -/
inductive LoadError where
  | unreadable (cause : ReadError)
  | unusable (cause : GrammarError)
deriving DecidableEq, Repr

namespace LoadError

/- The report of an error, with its cause behind it. -/
def report : LoadError → String
  | unreadable cause =>
      "IO error: " ++ cause.message ++ ": " ++ cause.message
  | unusable cause =>
      "Language error: " ++ cause.message ++ ": " ++
        cause.message

end LoadError

/- Load a grammar from a file, and check it. -/
def loadArtifact
    (w : Surroundings)
    (path : String) : Except LoadError GrammarHandle :=
  match w.fileText path with
  | .error e => .error (.unreadable e)
  | .ok text =>
      match GrammarHandle.load 0 text with
      | .error e => .error (.unusable e)
      | .ok handle =>
          match handle.grammar.validate with
          | .error e => .error (.unusable e)
          | .ok _ => .ok handle

namespace Options

/-
  The grammar of a run, which has been checked.  An error
  comes as a report, which names the artifact if there is
  one.
-/
def loadGrammar
    (o : Options)
    (w : Surroundings) : Except String GrammarHandle :=
  match o.artifact with
  | none =>
      match GrammarHandle.builtin.grammar.validate with
      | .ok _ => .ok .builtin
      | .error e => .error e.message
  | some path =>
      match loadArtifact w path with
      | .ok handle => .ok handle
      | .error e =>
          .error
            ("failed to load artifact " ++ path ++ ": " ++
              e.report)

------------------------------------------------------------
-- Parts Of A Run
------------------------------------------------------------

/- Lines about a grammar. -/
def infoText
    (g : Grammar) : String :=
  "name: " ++ g.name ++ "\n" ++
    "version: " ++ toString g.version ++ "\n" ++
    "node kinds: " ++ toString g.kinds.length ++ "\n" ++
    "fields: " ++ toString g.fields.length ++ "\n"

/- What is printed about the grammar, if anything. -/
def grammarText
    (o : Options)
    (g : Grammar) : String :=
  (if o.languageInfo then infoText g else "") ++
    (if o.dumpArtifact then g.toArtifact ++ "\n" else "")

/- The nesting limit of a run. -/
def nestingLimit
    (o : Options) : Nat :=
  o.limit.getD defaultLimit

/- The session of a run; it checks the grammar once more. -/
def openSession
    (o : Options)
    (handle : GrammarHandle) : Except GrammarError Session :=
  (Session.new.withLimit o.nestingLimit).install handle

/- The format of a run. -/
def outputFormat
    (o : Options) : OutputFormat :=
  o.format.getD .sexp

/- Render the standard input. -/
def renderInput
    (o : Options)
    (s : Session)
    (w : Surroundings) : Except RunError String := do
  let source ← w.inputText.mapError .unreadableInput
  s.render o.outputFormat source

/- Render one file. -/
def renderFile
    (o : Options)
    (s : Session)
    (w : Surroundings)
    (path : String) : Except RunError String := do
  let source ← (w.fileText path).mapError .unreadableFile
  s.render o.outputFormat source

end Options

namespace RunError

/- The line that reports an error of a named source. -/
def line
    (name : String)
    (e : RunError) : String :=
  name ++ ": " ++ e.report ++ "\n"

end RunError

------------------------------------------------------------
-- Runs Over Files
------------------------------------------------------------

/-
  How far a run over files has come: the session that all
  files share, the number of files that failed, and what was
  printed on both channels.
-/
structure Progress where
  session : Session
  failed : Nat
  stdout : String
  stderr : String

namespace Progress

/- No file was read yet. -/
def start
    (s : Session)
    (stdout : String) : Progress :=
  ⟨s, 0, stdout, ""⟩

/- Go on with one more file, whether it fails or not. -/
def next
    (o : Options)
    (w : Surroundings)
    (p : Progress)
    (path : String) : Progress :=
  match o.renderFile p.session w path with
  | .ok output =>
      { p with stdout := p.stdout ++ (output ++ "\n") }
  | .error e =>
      { p with
        failed := p.failed + 1
        stderr := p.stderr ++ e.line path }

/- Go on with files in turn. -/
def nextAll
    (o : Options)
    (w : Surroundings)
    (p : Progress)
    (paths : List String) : Progress :=
  paths.foldl (next o w) p

/- How a run ends. -/
def result
    (p : Progress) : CommandResult :=
  ⟨if 0 < p.failed then 1 else 0, p.stdout, p.stderr⟩

end Progress

------------------------------------------------------------
-- Whole Runs
------------------------------------------------------------

namespace Options

/-
  What a run does to source texts, when `about` was printed
  before.  Without files it reads the standard input.
-/
def renderAll
    (o : Options)
    (s : Session)
    (w : Surroundings)
    (about : String) : CommandResult :=
  match o.files with
  | [] =>
      match o.renderInput s w with
      | .ok output => ⟨0, about ++ (output ++ "\n"), ""⟩
      | .error e => ⟨1, about, e.line "<stdin>"⟩
  | files => ((Progress.start s about).nextAll o w files).result

/- A run that ends for want of a grammar. -/
def refusal
    (about cause : String) : CommandResult :=
  ⟨2, about, "Error loading Fe grammar: " ++ cause ++ "\n"⟩

/-
  A whole run.  Without files it reads the standard input,
  unless something about the grammar was asked for.
-/
def run
    (o : Options)
    (w : Surroundings) : CommandResult :=
  match o.loadGrammar w with
  | .error cause => refusal "" cause
  | .ok handle =>
      let about := o.grammarText handle.grammar
      if o.files = [] ∧ (o.languageInfo ∨ o.dumpArtifact) then
        ⟨0, about, ""⟩
      else
        match o.openSession handle with
        | .error e => refusal about e.message
        | .ok s => o.renderAll s w about

end Options

namespace Request

/- The text that `--help` prints. -/
def helpText : String :=
  "Parse Fe source files with the Fe grammar\n\n" ++
    "Usage: fe-parse [OPTIONS] [FILES]...\n\n" ++
    "  -f, --format <FORMAT>   sexp, json, tokens or highlight\n" ++
    "      --max-depth <N>     maximum nesting depth\n" ++
    "      --language-info     print facts about the grammar\n" ++
    "      --dump-artifact     print the grammar artifact\n" ++
    "      --artifact <PATH>   load the grammar from a file\n" ++
    "  -v, --verbose           verbose logging\n" ++
    "  -h, --help              print help\n"

/- The result of a request, or of arguments refused. -/
def result
    (request : Except UsageError Request)
    (w : Surroundings) : CommandResult :=
  match request with
  | .error e => ⟨2, "", "error: " ++ e.message ++ "\n"⟩
  | .ok help => ⟨0, helpText, ""⟩
  | .ok (run o) => o.run w

end Request

end FeSyntax
