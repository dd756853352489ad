import FeSyntax.Ast.Pattern
import FeSyntax.Parse.Piece

/-
  This file defines the parser of patterns.  Every pattern
  takes one level of nesting.

  Key definitions include:
    * `Parser.namedPattern`
    * `Parser.pattern`
-/

namespace FeSyntax

namespace Parser

------------------------------------------------------------
-- Patterns
------------------------------------------------------------

/- The pattern `_`. -/
def wildcardPattern : Parser Pattern := do
  let span ← keyword .underscore
  pure (.wildcard span)

/-
  A path with patterns in parentheses, or a single name.  A
  longer path needs the parentheses.
-/
def namedPattern
    (inner : Parser Pattern) : Parser Pattern := do
  let path ← path
  match ← punct? .leftParen with
  | some _ =>
      let (elements, stop) ← commaList .rightParen inner
      pure (.tupleStruct path elements (path.span.through stop))
  | none =>
      match path.segments with
      | [name] => pure (.identifier name)
      | _ => fail (.expected (.punct .leftParen))

/-
  A pattern whose parts are parsed by `inner`.  A wildcard
  or a truth value is no name.
-/
def patternOf
    (inner : Parser Pattern) : Parser Pattern := do
  match ← peek with
  | some (.keyword .underscore) => wildcardPattern
  | some kind =>
      if kind.literal?.isSome then
        .literal <$> literal .pattern
      else if kind.word?.isSome then
        namedPattern inner
      else
        fail (.expected .pattern)
  | none => fail (.expected .pattern)

/- A pattern of at most `levels` nested ones. -/
def pattern
    (levels : Nat) : Parser Pattern :=
  match levels with
  | 0 => fail .tooDeep
  | n + 1 => patternOf (pattern n)

end Parser

end FeSyntax
