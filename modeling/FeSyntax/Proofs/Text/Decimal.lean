import FeSyntax.Text.Digit
import Mathlib.Data.List.Basic

/-
  This file proves that a natural number is read back from
  its decimal digits, and that only zero is written with a
  zero in front.

  Key theorems include:
    * `Text.digitsValue_toDigits`
    * `Text.decimalBelow?_toDigits`
    * `Text.head?_toDigits_ne_zero`
-/

namespace FeSyntax

namespace Text

/- A number is written with its decimal digits. -/
theorem toList_toString
    (n : Nat) :
    (toString n).toList = Nat.toDigits 10 n :=
  Nat.toList_repr

/- They are digits in the sense of the tokens as well. -/
theorem isDigit_of_mem_toDigits
    {n : Nat}
    {c : Char}
    (hMem : c ∈ Nat.toDigits 10 n) :
    IsDigit c := by
  have hDigit :=
    Nat.isDigit_of_mem_toDigits (by decide) (by decide) hMem
  rw [Char.isDigit, Bool.and_eq_true] at hDigit
  exact
    ⟨of_decide_eq_true hDigit.1,
      of_decide_eq_true hDigit.2⟩

/- The digits of a number begin with a digit. -/
theorem toDigits_ne_cons
    {n : Nat}
    {c : Char}
    {cs : List Char}
    (hOther : ¬ IsDigit c) :
    Nat.toDigits 10 n ≠ c :: cs := by
  intro hSame
  have hMem : c ∈ Nat.toDigits 10 n := by
    rw [hSame]
    exact .head _
  exact hOther (isDigit_of_mem_toDigits hMem)

theorem digitsValue_eq_ofDigitChars
    {digits : List Char}
    (hDigits : ∀ c ∈ digits, IsDigit c) :
    digitsValue 10 digits =
      Nat.ofDigitChars 10 digits 0 := by
  rw [digitsValue, Nat.ofDigitChars_eq_foldl]
  refine List.foldl_ext _ _ _ fun n c hMem => ?_
  rw [digitValue, if_pos (hDigits c hMem).2, Nat.mul_comm]

/- The digits of a number denote it. -/
theorem digitsValue_toDigits
    (n : Nat) :
    digitsValue 10 (Nat.toDigits 10 n) = n := by
  rw [digitsValue_eq_ofDigitChars fun _ =>
    isDigit_of_mem_toDigits]
  exact Nat.ofDigitChars_ten_toDigits

/- A number below a bound is read back from its digits. -/
theorem decimalBelow?_toDigits
    {bound n : Nat}
    (hBelow : n < bound) :
    decimalBelow? bound (Nat.toDigits 10 n) = some n := by
  have hAll :
      (Nat.toDigits 10 n).all (fun c => IsDigit c) := by
    simpa using fun c => isDigit_of_mem_toDigits
  rw [decimalBelow?]
  simp only [digitsValue_toDigits]
  exact if_pos ⟨Nat.toDigits_ne_nil, hAll, hBelow⟩

/- No number but zero has a zero in front. -/
theorem head?_toDigits_ne_zero
    {n : Nat}
    (hPos : 0 < n) :
    (Nat.toDigits 10 n).head? ≠ some '0' := by
  induction n using Nat.strongRecOn with
  | ind n ih =>
      rcases Nat.lt_or_ge n 10 with hSmall | hLarge
      · intro hZero
        rw [Nat.toDigits_of_lt_base hSmall] at hZero
        have hDigit :=
          Nat.digitChar_eq_zero.mp (Option.some.inj hZero)
        exact Nat.ne_of_gt hPos hDigit
      · have hFront : 0 < n / 10 :=
          Nat.div_pos hLarge (by decide)
        rw [Nat.toDigits_of_base_le (by decide) hLarge,
          List.head?_append_of_ne_nil _
            Nat.toDigits_ne_nil]
        exact ih (n / 10) (by omega) hFront

end Text

end FeSyntax
