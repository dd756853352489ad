import FeSyntax.Parse.Definition
import FeSyntax.SyntaxError
import FeSyntax.Token.Scan

/-
  This file defines a cursor on a source text, which parses
  one piece after another.  A cursor keeps its position
  between pieces: behind a piece that was parsed, or at the
  token that a piece failed on.

  Key definitions include:
    * `defaultLimit`
    * `Cursor`
    * `Cursor.ofString`
    * `Cursor.sourceFile`
    * `Cursor.definition`
    * `Cursor.ty`
    * `Cursor.expression`
    * `Cursor.pattern`
    * `SourceFile.parse`
-/

namespace FeSyntax

/- The number of nested levels allowed by default. -/
def defaultLimit : Nat :=
  256

------------------------------------------------------------
-- Cursors
------------------------------------------------------------

/-
  A cursor holds the significant tokens that are left, the
  comments that no file has taken yet, the end of the text,
  the nesting limit and the number of all its tokens.
-/
structure Cursor where
  rest : List Token
  comments : List Comment
  stop : Token
  limit : Nat
  tokenCount : Nat

namespace Cursor

/- The comments among tokens. -/
def commentsOf
    (tokens : List Token) : List Comment :=
  (tokens.filter (fun t => t.kind = .comment)).map
    (fun t => ⟨t.text, t.span⟩)

/- The token that stands for the end behind all others. -/
def stopOf
    (tokens : List Token) : Token :=
  tokens.getLastD ⟨.endOfText, "", ⟨0, 0, 1, 1⟩⟩

/- A cursor at the start of a text. -/
def ofString
    (source : String)
    (limit : Nat) : Cursor :=
  let tokens := tokenize source
  let significant :=
    tokens.filter (fun t => t.IsSignificant)
  { rest := significant
    comments := commentsOf tokens
    stop := stopOf tokens
    limit
    tokenCount := significant.length + 1 }

/- The token that the cursor stands at. -/
def current
    (c : Cursor) : Token :=
  c.rest.headD c.stop

/- The cursor, standing at the first of some tokens. -/
def moveTo
    (c : Cursor)
    (rest : List Token) : Cursor :=
  { c with rest }

------------------------------------------------------------
-- Parsing Pieces
------------------------------------------------------------

/- Parse a piece with all levels of the limit. -/
def run
    {α : Type}
    (c : Cursor)
    (p : Nat → Parser α) : Except SyntaxError α × Cursor :=
  match p c.limit c.rest with
  | .done a rest => (.ok a, c.moveTo rest)
  | .stopped fault rest =>
      let stopped := c.moveTo rest
      ( .error (.ofFault c.limit fault stopped.current),
        stopped )

/- Parse one definition. -/
def definition
    (c : Cursor) : Except SyntaxError Definition × Cursor :=
  c.run Parser.definition

/- Parse one type expression. -/
def ty
    (c : Cursor) : Except SyntaxError Ty × Cursor :=
  c.run Parser.ty

/- Parse one expression. -/
def expression
    (c : Cursor) : Except SyntaxError Expression × Cursor :=
  c.run Parser.expression

/- Parse one pattern. -/
def pattern
    (c : Cursor) : Except SyntaxError Pattern × Cursor :=
  c.run Parser.pattern

/-
  Parse definitions up to the end of the text.  The first
  file that parses takes all comments of the text.
-/
def sourceFile
    (c : Cursor) : Except SyntaxError SourceFile × Cursor :=
  match c.run Parser.definitions with
  | (.ok definitions, stopped) =>
      ( .ok
          { definitions
            comments := c.comments
            span := ⟨0, c.stop.span.stop, 1, 1⟩ },
        { stopped with comments := [] } )
  | (.error e, stopped) => (.error e, stopped)

end Cursor

namespace SourceFile

/- Parse a source text as a whole file. -/
def parse
    (source : String)
    (limit : Nat) : Except SyntaxError SourceFile :=
  (Cursor.ofString source limit).sourceFile.1

end SourceFile

end FeSyntax
