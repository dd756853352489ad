/-
  This file defines decimal and hexadecimal digits and the
  numbers that they denote.

  Key definitions include:
    * `Text.IsDigit`
    * `Text.IsHexDigit`
    * `Text.digitValue`
    * `Text.digitsValue`
    * `Text.decimalBelow?`
-/

namespace FeSyntax

namespace Text

------------------------------------------------------------
-- Digits
------------------------------------------------------------

/- A decimal digit. -/
def IsDigit
    (c : Char) : Prop :=
  '0' ≤ c ∧ c ≤ '9'

instance
    (c : Char) :
    Decidable (IsDigit c) := by
  unfold IsDigit
  infer_instance

/- A hexadecimal digit, in either case. -/
def IsHexDigit
    (c : Char) : Prop :=
  IsDigit c ∨
    ('a' ≤ c ∧ c ≤ 'f') ∨
    ('A' ≤ c ∧ c ≤ 'F')

instance
    (c : Char) :
    Decidable (IsHexDigit c) := by
  unfold IsHexDigit
  infer_instance

/- The value of a decimal or hexadecimal digit. -/
def digitValue
    (c : Char) : Nat :=
  if c ≤ '9' then
    c.toNat - '0'.toNat
  else if c ≤ 'F' then
    c.toNat - 'A'.toNat + 10
  else
    c.toNat - 'a'.toNat + 10

/- The value of a character that is a hexadecimal digit. -/
def hexDigit?
    (c : Char) : Option Nat :=
  if IsHexDigit c then some (digitValue c) else none

------------------------------------------------------------
-- Numbers
------------------------------------------------------------

/- The number that digits denote in a radix. -/
def digitsValue
    (radix : Nat)
    (digits : List Char) : Nat :=
  digits.foldl (fun n c => n * radix + digitValue c) 0

/- The number below a bound that decimal digits denote. -/
def decimalBelow?
    (bound : Nat)
    (digits : List Char) : Option Nat :=
  let n := digitsValue 10 digits
  if digits ≠ [] ∧ digits.all (fun c => IsDigit c) ∧
      n < bound then
    some n
  else
    none

end Text

end FeSyntax
