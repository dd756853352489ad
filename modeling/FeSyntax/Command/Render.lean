import FeSyntax.Ast.Encoding
import FeSyntax.Command.Options
import FeSyntax.Highlight
import FeSyntax.Json.Printer
import FeSyntax.Session

/-
  This file defines what the command prints for a source
  text, in each format, and the errors that it reports.

  Key definitions include:
    * `ReadError`
    * `RunError`
    * `RunError.report`
    * `Token.record`
    * `Token.records`
    * `Highlight.record`
    * `Session.render`
-/

namespace FeSyntax

------------------------------------------------------------
-- Errors
------------------------------------------------------------

/-
  Why a text is not to be had: the system refuses with the
  code of an error, or the bytes encode no text.
-/
inductive ReadError where
  | system (code : Nat)
  | notUtf8
deriving DecidableEq, Repr

namespace ReadError

/- What the system calls the errors that reading meets. -/
def systemText : Nat → String
  | 1 => "Operation not permitted"
  | 2 => "No such file or directory"
  | 5 => "Input/output error"
  | 13 => "Permission denied"
  | 20 => "Not a directory"
  | 21 => "Is a directory"
  | 24 => "Too many open files"
  | 36 => "File name too long"
  | 40 => "Too many levels of symbolic links"
  | code => "Unknown error " ++ toString code

/- The wording of an error. -/
def message : ReadError → String
  | system code =>
      systemText code ++ " (os error " ++ toString code ++ ")"
  | notUtf8 => "stream did not contain valid UTF-8"

end ReadError

/- Why a source text is not rendered. -/
inductive RunError where
  | unreadableInput (cause : ReadError)
  | unreadableFile (cause : ReadError)
  | invalidSource (cause : SessionError)
  | invalidToken (cause : LexError) (line column : Nat)
deriving DecidableEq, Repr

namespace RunError

/-
  The report of an error, with every cause behind it.  The
  cause of a syntax error is named twice, once as the cause
  and once in the error that it makes.
-/
def report : RunError → String
  | unreadableInput cause =>
      "failed to read stdin: " ++ cause.message
  | unreadableFile cause =>
      "failed to read file: " ++ cause.message
  | invalidSource .noGrammar =>
      SessionError.noGrammar.message
  | invalidSource (.invalid cause) =>
      (SessionError.invalid cause).message ++ ": " ++
        cause.message
  | invalidToken cause line column =>
      SyntaxError.placeText line column ++ ": " ++
        cause.message

end RunError

------------------------------------------------------------
-- Records Of Tokens
------------------------------------------------------------

namespace TokenKind

/-
  The label of a token: the node that it is, named or not.
  Every token but an error and the end has one of its own.
-/
def label : TokenKind → String
  | identifier _ => NamedKind.identifier.name
  | number _ _ => NamedKind.numberLiteral.name
  | string _ => NamedKind.stringLiteral.name
  | comment => NamedKind.comment.name
  | kind => kind.nodeKind?.getD "token"

end TokenKind

namespace Token

/- A record: the place, a label and the text of a token. -/
def record
    (t : Token)
    (label : String) : String :=
  SyntaxError.placeText t.span.line t.span.column ++
    "\t" ++ label ++ "\t" ++ t.text

/-
  The records of tokens up to the end of the text, labelled
  by their kinds.
-/
def records :
    List Token → Except RunError (List String)
  | [] => .ok []
  | t :: ts =>
      match t.kind with
      | .error cause =>
          .error
            (.invalidToken cause t.span.line t.span.column)
      | .endOfText => .ok []
      | kind => (records ts).map (t.record kind.label :: ·)

end Token

namespace Highlight

/- The record of a token, labelled by its capture. -/
def record
    (h : Highlight) : String :=
  h.token.record h.capture.name

end Highlight

------------------------------------------------------------
-- Rendering
------------------------------------------------------------

namespace Session

/- The root of a text that a session parses. -/
def parseRoot
    (s : Session)
    (source : String) : Except RunError SourceFile :=
  match s.parse source with
  | .ok f => .ok f.root
  | .error e => .error (.invalidSource e)

/- What is printed for a source text, but for a line end. -/
def render
    (s : Session)
    (format : OutputFormat)
    (source : String) : Except RunError String :=
  match format with
  | .sexp => (s.parseRoot source).map SourceFile.sexp
  | .json =>
      (s.parseRoot source).map (fun f => f.encode.pretty)
  | .tokens =>
      (Token.records (tokenize source)).map
        (String.intercalate "\n")
  | .highlight =>
      match highlight source with
      | .ok highlights =>
          .ok
            ("\n".intercalate
              (highlights.map Highlight.record))
      | .error e => .error (.invalidSource (.invalid e))

end Session

end FeSyntax
