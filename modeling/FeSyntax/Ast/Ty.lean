import FeSyntax.Ast.Name

/-
  This file defines type expressions and how messages show
  them.

  Key definitions include:
    * `Ty`
    * `Ty.span`
    * `Ty.display`
-/

namespace FeSyntax

------------------------------------------------------------
-- Type Expressions
------------------------------------------------------------

/- A type expression. -/
inductive Ty where
  | path (path : Path)
  | reference (isMut : Bool) (inner : Ty) (span : Span)
  | tuple (elements : List Ty) (span : Span)
  | primitive (kind : Primitive) (span : Span)
deriving Repr

namespace Ty

/- The span of a type expression. -/
def span : Ty → Span
  | path p => p.span
  | reference _ _ s => s
  | tuple _ s => s
  | primitive _ s => s

mutual

/- How messages show a type expression. -/
def display : Ty → String
  | path p => p.display
  | reference true inner _ => "&mut " ++ inner.display
  | reference false inner _ => "&" ++ inner.display
  | tuple elements _ =>
      "(" ++ ", ".intercalate (displayAll elements) ++ ")"
  | primitive kind _ => kind.spelling

/- How messages show each type expression of a list. -/
def displayAll : List Ty → List String
  | [] => []
  | ty :: tys => ty.display :: displayAll tys

end

end Ty

end FeSyntax
