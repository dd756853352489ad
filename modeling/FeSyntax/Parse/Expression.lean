import FeSyntax.Ast.Expression
import FeSyntax.Parse.Pattern
import FeSyntax.Parse.Ty

/-
  This file defines the parsers of expressions and blocks.
  Every expression and every block takes one level of
  nesting, so a block that is an expression takes two.

  Key definitions include:
    * `Parser.letBinding`
    * `Parser.matchArm`
    * `Parser.expression`
    * `Parser.block`
-/

namespace FeSyntax

namespace Parser

------------------------------------------------------------
-- Match
------------------------------------------------------------

/-
  One arm of a `match`.  A semicolon behind it belongs to
  the arm and may be left out.
-/
def matchArm
    (inner : Parser Expression)
    (pattern : Parser Pattern) : Parser MatchArm := do
  let pattern ← pattern
  let _ ← punct .fatArrow
  let value ← inner
  let semicolon ← punct? .semicolon
  let stop := semicolon.getD value.span
  pure ⟨pattern, value, pattern.span.through stop⟩

/- `match`, a value, and arms in braces. -/
def matchOf
    (inner : Parser Expression)
    (pattern : Parser Pattern) : Parser Match := do
  let start ← keyword .matchKw
  let value ← inner
  let _ ← punct .leftBrace
  let (arms, stop) ←
    itemsUntil .rightBrace (matchArm inner pattern)
  pure ⟨value, arms, start.through stop⟩

------------------------------------------------------------
-- Statements
------------------------------------------------------------

/- `let`, with an optional type and an optional value. -/
def letBinding
    (inner : Parser Expression)
    (ty : Parser Ty) : Parser LetBinding := do
  let start ← keyword .letKw
  let mutable ← keyword? .mutKw
  let name ← identifier
  let ty ←
    whenAt (.punct .colon) do
      let _ ← punct .colon
      ty
  let value ←
    whenAt (.punct .equals) do
      let _ ← punct .equals
      inner
  let stop ← punct .semicolon
  pure ⟨mutable.isSome, name, ty, value, start.through stop⟩

/-
  The last part of a block: an expression if there is one,
  and the span of the closing brace.
-/
abbrev BlockEnd : Type :=
  Option Expression × Span

/-
  A part of a block that starts with an expression: a
  statement if a semicolon follows, and the last part if the
  block is closed.
-/
def expressionPart
    (inner : Parser Expression) :
    Parser (Statement ⊕ BlockEnd) := do
  let value ← inner
  match ← punct? .semicolon with
  | some stop =>
      pure (.inl (.expression value (value.span.through stop)))
  | none =>
      match ← punct? .rightBrace with
      | some stop => pure (.inr (some value, stop))
      | none => fail (.expected .statementEnd)

/- A part of a block, behind its opening brace. -/
def blockPart
    (inner : Parser Expression)
    (ty : Parser Ty) :
    Parser (Statement ⊕ BlockEnd) := do
  match ← peek with
  | some (.punct .rightBrace) =>
      let stop ← punct .rightBrace
      pure (.inr (none, stop))
  | some (.keyword .letKw) =>
      (.inl ∘ .binding) <$> letBinding inner ty
  | _ => expressionPart inner

/- Statements in braces, with an optional last expression. -/
def blockOf
    (inner : Parser Expression)
    (ty : Parser Ty) : Parser Block := do
  let start ← punct .leftBrace
  let (statements, tail, stop) ←
    collect (.punct .rightBrace) (blockPart inner ty)
  pure ⟨statements, tail, start.through stop⟩

------------------------------------------------------------
-- Expressions
------------------------------------------------------------

/-
  An expression whose parts are parsed by the arguments.  A
  truth value or the word `match` is no path.
-/
def expressionOf
    (inner : Parser Expression)
    (block : Parser Block)
    (pattern : Parser Pattern) : Parser Expression := do
  match ← peek with
  | some (.punct .leftBrace) => .block <$> block
  | some (.keyword .matchKw) =>
      .matching <$> matchOf inner pattern
  | some kind =>
      if kind.literal?.isSome then
        .literal <$> literal .expression
      else if kind.word?.isSome then
        .path <$> path
      else
        fail (.expected .expression)
  | none => fail (.expected .expression)

mutual

/- An expression of at most `levels` nested levels. -/
def expression
    (levels : Nat) : Parser Expression :=
  match levels with
  | 0 => fail .tooDeep
  | n + 1 => expressionOf (expression n) (block n) (pattern n)

/- A block of at most `levels` nested levels. -/
def block
    (levels : Nat) : Parser Block :=
  match levels with
  | 0 => fail .tooDeep
  | n + 1 => blockOf (expression n) (ty n)

end

end Parser

end FeSyntax
