import FeSyntax.Ast.Pattern
import FeSyntax.Ast.Ty

/-
  This file defines expressions, blocks, statements and
  match arms, which contain one another.

  Key definitions include:
    * `Expression`
    * `Block`
    * `Statement`
    * `LetBinding`
    * `Match`
    * `MatchArm`
    * `Expression.span`
-/

namespace FeSyntax

------------------------------------------------------------
-- Expressions, Blocks And Statements
------------------------------------------------------------

mutual

/- An expression. -/
inductive Expression where
  | literal (literal : Literal)
  | path (path : Path)
  | block (block : Block)
  | matching (choice : Match)

/- Statements in braces, with an optional value at the end. -/
structure Block where
  statements : List Statement
  tail : Option Expression
  span : Span

/- A statement of a block. -/
inductive Statement where
  | binding (binding : LetBinding)
  | expression (value : Expression) (span : Span)

/- `let`, with an optional type and an optional value. -/
structure LetBinding where
  isMut : Bool
  name : Identifier
  ty : Option Ty
  value : Option Expression
  span : Span

/- A choice between the arms of a `match`. -/
structure Match where
  value : Expression
  arms : List MatchArm
  span : Span

/- One arm of a `match`. -/
structure MatchArm where
  pattern : Pattern
  value : Expression
  span : Span

end

namespace Expression

/- The span of an expression. -/
def span : Expression → Span
  | literal l => l.span
  | path p => p.span
  | block b => b.span
  | matching m => m.span

end Expression

namespace Statement

/- The span of a statement. -/
def span : Statement → Span
  | binding b => b.span
  | expression _ s => s

end Statement

namespace Block

/- An empty block has neither statements nor a value. -/
def isEmpty
    (b : Block) : Bool :=
  b.statements.isEmpty && b.tail.isNone

end Block

end FeSyntax
