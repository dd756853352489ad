import FeSyntax.Ast.Name

/-
  This file defines the patterns of match arms.

  Key definitions include:
    * `Pattern`
    * `Pattern.span`
-/

namespace FeSyntax

------------------------------------------------------------
-- Patterns
------------------------------------------------------------

/- A pattern of a match arm. -/
inductive Pattern where
  | identifier (name : Identifier)
  | literal (literal : Literal)
  | wildcard (span : Span)
  | tupleStruct
      (path : Path)
      (elements : List Pattern)
      (span : Span)
deriving Repr

namespace Pattern

/- The span of a pattern. -/
def span : Pattern → Span
  | identifier name => name.span
  | literal l => l.span
  | wildcard s => s
  | tupleStruct _ _ s => s

end Pattern

end FeSyntax
