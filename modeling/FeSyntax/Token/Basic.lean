import FeSyntax.Span
import FeSyntax.Token.Kind

/-
  This file defines tokens: a kind together with the text
  that was read and the span that it covers.

  Key definitions include:
    * `Token`
    * `Token.IsSignificant`
-/

namespace FeSyntax

------------------------------------------------------------
-- Tokens
------------------------------------------------------------

/- A token of a source text. -/
structure Token where
  kind : TokenKind
  text : String
  span : Span
deriving DecidableEq, Repr

namespace Token

/-
  The grammar sees every token but comments and the end of
  the text.
-/
def IsSignificant
    (t : Token) : Prop :=
  t.kind ≠ .comment ∧ t.kind ≠ .endOfText

instance
    (t : Token) :
    Decidable t.IsSignificant := by
  unfold IsSignificant
  infer_instance

end Token

end FeSyntax
