import FeSyntax.Ast.Named
import FeSyntax.Cursor
import FeSyntax.Grammar.Handle
import FeSyntax.Text.Slice

/-
  This file defines parsing sessions.  A session parses
  files once a usable grammar is installed, under a nesting
  limit that can be changed.

  Key definitions include:
    * `SessionError`
    * `ParsedFile`
    * `ParsedFile.text`
    * `Session`
    * `Session.install`
    * `Session.withLimit`
    * `Session.parse`
    * `Session.limitOfSettings?`
-/

namespace FeSyntax

------------------------------------------------------------
-- Errors
------------------------------------------------------------

/- Why a session does not parse a text. -/
inductive SessionError where
  | noGrammar
  | invalid (cause : SyntaxError)
deriving DecidableEq, Repr

namespace SessionError

/- The wording of an error. -/
def message : SessionError → String
  | noGrammar => "No language installed"
  | invalid cause => "Parse error: " ++ cause.message

end SessionError

------------------------------------------------------------
-- Parsed Files
------------------------------------------------------------

/- A syntax tree with its source text and its grammar. -/
structure ParsedFile where
  source : String
  root : SourceFile
  grammar : GrammarHandle

namespace ParsedFile

/- The source text between two byte offsets, if any. -/
def text
    (f : ParsedFile)
    (start stop : Nat) : String :=
  (Text.slice? f.source start stop).getD ""

end ParsedFile

------------------------------------------------------------
-- Sessions
------------------------------------------------------------

/- The installed grammar and the nesting limit. -/
structure Session where
  grammar : Option GrammarHandle
  limit : Nat

namespace Session

/- A session without a grammar. -/
def new : Session :=
  ⟨none, defaultLimit⟩

/- Install a grammar, if it can be used. -/
def install
    (s : Session)
    (handle : GrammarHandle) : Except GrammarError Session := do
  handle.grammar.validate
  pure { s with grammar := some handle }

/- Change the nesting limit. -/
def withLimit
    (s : Session)
    (limit : Nat) : Session :=
  { s with limit }

/- Parse a source text as a whole file. -/
def parse
    (s : Session)
    (source : String) : Except SessionError ParsedFile :=
  match s.grammar with
  | none => .error .noGrammar
  | some grammar =>
      match SourceFile.parse source s.limit with
      | .error e => .error (.invalid e)
      | .ok root => .ok ⟨source, root, grammar⟩

/- A session with the built-in grammar installed. -/
def ready : Session :=
  { new with grammar := some .builtin }

------------------------------------------------------------
-- Settings
------------------------------------------------------------

/- Limits are numbers of 64 bits. -/
def limitBound : Nat :=
  Nat.pow 2 64

/-
  The nesting limit that a settings document gives.  A
  document that leaves it out gives the default.
-/
def limitOfSettings?
    (text : String) : Option Nat := do
  let settings ← Json.read? text
  match ← settings.toRecord? ["max_depth"] with
  | [some limit] => limit.toNat? limitBound
  | _ => pure defaultLimit

end Session

end FeSyntax
