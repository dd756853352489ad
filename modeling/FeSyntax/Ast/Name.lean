import FeSyntax.NodeKind
import FeSyntax.Span

/-
  This file defines the smallest parts of the syntax tree:
  identifiers, paths, literals and comments.

  Key definitions include:
    * `Identifier`
    * `Path`
    * `Path.IsSimple`
    * `Path.display`
    * `LiteralValue`
    * `LiteralValue.FitsSuffix`
    * `Literal`
    * `Comment`
    * `Comment.IsBlock`
-/

namespace FeSyntax

------------------------------------------------------------
-- Identifiers
------------------------------------------------------------

/- A name at a place in the source. -/
structure Identifier where
  name : String
  span : Span
deriving DecidableEq, Repr

------------------------------------------------------------
-- Paths
------------------------------------------------------------

/- Names joined by `::`. -/
structure Path where
  segments : List Identifier
  span : Span
deriving DecidableEq, Repr

namespace Path

/- The first segment. -/
def root?
    (p : Path) : Option Identifier :=
  p.segments.head?

/- The last segment. -/
def last?
    (p : Path) : Option Identifier :=
  p.segments.getLast?

/- A simple path has exactly one segment. -/
def IsSimple
    (p : Path) : Prop :=
  p.segments.length = 1

instance
    (p : Path) :
    Decidable p.IsSimple := by
  unfold IsSimple
  infer_instance

/- How messages show a path. -/
def display
    (p : Path) : String :=
  "::".intercalate (p.segments.map Identifier.name)

end Path

------------------------------------------------------------
-- Literals
------------------------------------------------------------

/-
  The value of a literal.  A number that needs more than
  128 bits has no value.
-/
inductive LiteralValue where
  | number (value : Option Nat) (suffix : Option IntSuffix)
  | bool (value : Bool)
  | string (value : String)
deriving DecidableEq, Repr

namespace LiteralValue

/- The node of the syntax tree for a literal of this sort. -/
def nodeKind : LiteralValue → NamedKind
  | number _ _ => .numberLiteral
  | bool _ => .booleanLiteral
  | string _ => .stringLiteral

/-
  A number with a suffix fits when it is less than two to
  the power of the named bits.
-/
def FitsSuffix : LiteralValue → Prop
  | number (some n) (some suffix) => n < Nat.pow 2 suffix.bits
  | number none (some _) => False
  | number _ none => True
  | bool _ => True
  | string _ => True

instance
    (v : LiteralValue) :
    Decidable v.FitsSuffix := by
  unfold FitsSuffix
  split <;> infer_instance

end LiteralValue

/- A literal at a place in the source. -/
structure Literal where
  value : LiteralValue
  span : Span
deriving DecidableEq, Repr

------------------------------------------------------------
-- Comments
------------------------------------------------------------

/- A comment with its marks. -/
structure Comment where
  text : String
  span : Span
deriving DecidableEq, Repr

namespace Comment

/- A block comment starts with `/*`. -/
def IsBlock
    (c : Comment) : Prop :=
  ['/', '*'] <+: c.text.toList

instance
    (c : Comment) :
    Decidable c.IsBlock := by
  unfold IsBlock
  infer_instance

end Comment

end FeSyntax
