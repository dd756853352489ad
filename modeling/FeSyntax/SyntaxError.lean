import FeSyntax.Parse.Basic

/-
  This file defines syntax errors: a fault of a parser
  together with the token that it stands at.

  Key definitions include:
    * `SyntaxError`
    * `SyntaxError.ofFault`
    * `SyntaxError.message`
    * `SyntaxError.position?`
-/

namespace FeSyntax

------------------------------------------------------------
-- Syntax Errors
------------------------------------------------------------

/- Why a source text does not parse, and where. -/
inductive SyntaxError where
  | unexpectedToken
      (expected : Expectation)
      (got : TokenKind)
      (line column : Nat)
  | unexpectedEnd (expected : Expectation)
  | invalidToken (cause : LexError) (line column : Nat)
  | nestingTooDeep (limit line column : Nat)
deriving DecidableEq, Repr

namespace SyntaxError

/-
  The error of a fault at a token.  A token that is itself
  an error explains the failure better than what was asked
  for, and the end of the text has no place to show.
-/
def ofFault
    (limit : Nat)
    (fault : Fault)
    (token : Token) : SyntaxError :=
  let line := token.span.line
  let column := token.span.column
  match fault with
  | .tooDeep => nestingTooDeep limit line column
  | .expected what =>
      match token.kind with
      | .endOfText => unexpectedEnd what
      | .error cause => invalidToken cause line column
      | kind => unexpectedToken what kind line column

/- A place in a message. -/
def placeText
    (line column : Nat) : String :=
  toString line ++ ":" ++ toString column

/- The wording of a syntax error. -/
def message : SyntaxError → String
  | unexpectedToken expected got line column =>
      "Unexpected token at " ++ placeText line column ++
        ": expected " ++ expected.message ++
        ", got " ++ got.display
  | unexpectedEnd expected =>
      "Unexpected end of file: expected " ++ expected.message
  | invalidToken cause line column =>
      "Invalid token at " ++ placeText line column ++
        ": " ++ cause.message
  | nestingTooDeep limit line column =>
      "Nesting too deep at " ++ placeText line column ++
        ": limit is " ++ toString limit

/- The line and column, if the error points at a token. -/
def position? : SyntaxError → Option (Nat × Nat)
  | unexpectedToken _ _ line column => some (line, column)
  | unexpectedEnd _ => none
  | invalidToken _ line column => some (line, column)
  | nestingTooDeep _ line column => some (line, column)

end SyntaxError

end FeSyntax
