import FeSyntax.Ast.Ty
import FeSyntax.Parse.Piece

/-
  This file defines the parser of type expressions.  Every
  type expression takes one level of nesting, and its parts
  are parsed with the levels that are left.

  Key definitions include:
    * `Parser.referenceTy`
    * `Parser.tupleTy`
    * `Parser.ty`
-/

namespace FeSyntax

namespace Parser

------------------------------------------------------------
-- Type Expressions
------------------------------------------------------------

/- The name of a primitive type. -/
def primitiveTy : Parser Ty := do
  let (kind, span) ← accept .type TokenKind.primitive?
  pure (.primitive kind span)

/- `&` or `&mut` before a type expression. -/
def referenceTy
    (inner : Parser Ty) : Parser Ty := do
  let start ← punct .ampersand
  let mutable ← keyword? .mutKw
  let ty ← inner
  pure (.reference mutable.isSome ty (start.through ty.span))

/- Type expressions in parentheses. -/
def tupleTy
    (inner : Parser Ty) : Parser Ty := do
  let start ← punct .leftParen
  let (elements, stop) ← commaList .rightParen inner
  pure (.tuple elements (start.through stop))

/-
  A type expression whose parts are parsed by `inner`.  The
  name of a primitive type is no path.
-/
def tyOf
    (inner : Parser Ty) : Parser Ty := do
  match ← peek with
  | some (.primitive _) => primitiveTy
  | some (.punct .ampersand) => referenceTy inner
  | some (.punct .leftParen) => tupleTy inner
  | some kind =>
      if kind.word?.isSome then
        .path <$> path
      else
        fail (.expected .type)
  | none => fail (.expected .type)

/- A type expression of at most `levels` nested ones. -/
def ty
    (levels : Nat) : Parser Ty :=
  match levels with
  | 0 => fail .tooDeep
  | n + 1 => tyOf (ty n)

end Parser

end FeSyntax
