/-
  This file defines the blank characters: the characters
  with the Unicode property White_Space, which separate
  tokens and otherwise mean nothing.

  Key definitions include:
    * `Text.blankRanges`
    * `Text.IsBlank`
    * `Text.isAllBlank`
-/

namespace FeSyntax

namespace Text

------------------------------------------------------------
-- Blank Characters
------------------------------------------------------------

/-
  The code points with the property White_Space, as
  closed ranges.
-/
def blankRanges : List (Nat × Nat) :=
  [ (0x0009, 0x000D),
    (0x0020, 0x0020),
    (0x0085, 0x0085),
    (0x00A0, 0x00A0),
    (0x1680, 0x1680),
    (0x2000, 0x200A),
    (0x2028, 0x2029),
    (0x202F, 0x202F),
    (0x205F, 0x205F),
    (0x3000, 0x3000) ]

/- A blank character lies in one of the blank ranges. -/
def IsBlank
    (c : Char) : Prop :=
  ∃ r ∈ blankRanges, r.1 ≤ c.toNat ∧ c.toNat ≤ r.2

instance
    (c : Char) :
    Decidable (IsBlank c) := by
  unfold IsBlank
  infer_instance

/- Whether a text holds blank characters only. -/
def isAllBlank
    (s : String) : Bool :=
  s.all (fun c => decide (IsBlank c))

end Text

end FeSyntax
