import FeSyntax.Json.Lexeme

/-
  This file proves that what is written between the quotes
  of a JSON string stands for the text that it was written
  for, and that the string ends at its own closing quote.

  Key definitions include:
    * `Json.Body.Escaped`

  Key theorems include:
    * `Json.Body.escaped_escapeChar`
    * `Json.Body.unescape?_escape`
    * `Json.Lexeme.bodyLength?_escape`
-/

namespace FeSyntax

namespace Json

------------------------------------------------------------
-- Single Characters
------------------------------------------------------------

namespace Body

/-
  The three ways to write a character: behind a backslash,
  with the four digits of its code, or as it is.
-/
inductive Escaped
    (c : Char) : List Char → Prop where
  | short
      {d : Char}
      (meaning : shortEscape? d = some c) :
      Escaped c ['\\', d]
  | code
      {d₁ d₂ d₃ d₄ : Char}
      (digits : codeUnit? d₁ d₂ d₃ d₄ = some c.toNat)
      (small : c.toNat < 32) :
      Escaped c ['\\', 'u', d₁, d₂, d₃, d₄]
  | plain
      (quote : c ≠ '"')
      (backslash : c ≠ '\\')
      (printable : ¬ c < ' ') :
      Escaped c [c]

/- The digits of a small code give it back. -/
theorem codeUnit?_of_lt :
    ∀ n < 32,
      codeUnit? '0' '0' (Nat.digitChar (n / 16))
          (Nat.digitChar (n % 16)) =
        some n := by
  decide

theorem escaped_escapeChar
    (c : Char) :
    Escaped c (escapeChar c) := by
  unfold escapeChar
  split
  next h => exact .short (congrArg some h.symm)
  next hQuote =>
  split
  next h => exact .short (congrArg some h.symm)
  next hBackslash =>
  split
  next h => exact .short (congrArg some h.symm)
  next =>
  split
  next h => exact .short (congrArg some h.symm)
  next =>
  split
  next h => exact .short (congrArg some h.symm)
  next =>
  split
  next h => exact .short (congrArg some h.symm)
  next =>
  split
  next h => exact .short (congrArg some h.symm)
  next =>
  split
  next h =>
    have hSmall : c.toNat < 32 := h
    exact .code (codeUnit?_of_lt _ hSmall) hSmall
  next h => exact .plain hQuote hBackslash h

/- A written character is read back, whatever follows it. -/
theorem Escaped.unescapeChars?
    {c : Char}
    {written : List Char}
    (hWritten : Escaped c written)
    (rest : List Char) :
    unescapeChars? (written ++ rest) =
      (unescapeChars? rest).map (c :: ·) := by
  rw [Option.map_eq_bind]
  cases hWritten with
  | @short d hMeaning =>
      have hNoCode : d ≠ 'u' := by
        rintro rfl
        cases hMeaning
      simp only [List.cons_append, List.nil_append]
      rw [Body.unescapeChars?]
      · rw [hMeaning]
        rfl
      · rintro d₁ d₂ d₃ d₄ cs rfl
        exact absurd rfl hNoCode
  | code hDigits hSmall =>
      have hHigh : ¬ IsHighUnit c.toNat := fun h =>
        absurd h.1 (by omega)
      have hLow : ¬ IsLowUnit c.toNat := fun h =>
        absurd h.1 (by omega)
      simp only [List.cons_append, List.nil_append]
      rw [Body.unescapeChars?, hDigits]
      simp only [Option.bind_eq_bind, Option.bind_some,
        if_neg hHigh, if_neg hLow, Char.ofNat_toNat]
      rfl
  | plain hQuote hBackslash hPrintable =>
      simp only [List.cons_append, List.nil_append]
      rw [Body.unescapeChars?]
      · rfl
      · intro _ _ _ _ _ hStart _
        exact hBackslash hStart
      · intro _ _ hStart _
        exact hBackslash hStart
      · intro hStart _
        exact hBackslash hStart

------------------------------------------------------------
-- Whole Bodies
------------------------------------------------------------

theorem unescapeChars?_flatMap_escapeChar
    (cs : List Char) :
    unescapeChars? (cs.flatMap escapeChar) = some cs := by
  induction cs with
  | nil => rfl
  | cons c cs ih =>
      rw [List.flatMap_cons,
        (escaped_escapeChar c).unescapeChars?, ih]
      rfl

/- What is written for a text stands for that text. -/
@[simp] theorem unescape?_escape
    (s : String) :
    unescape? (escape s) = some s := by
  rw [unescape?, escape, String.toList_ofList,
    unescapeChars?_flatMap_escapeChar, Option.map_some,
    String.ofList_toList]

end Body

------------------------------------------------------------
-- The Closing Quote
------------------------------------------------------------

namespace Lexeme

open Body

/- A written character does not end the string. -/
theorem bodyLength?_of_escaped
    {c : Char}
    {written : List Char}
    (hWritten : Escaped c written)
    (n : Nat)
    (rest : List Char) :
    bodyLength? n (written ++ rest) =
      bodyLength? (n + written.length) rest := by
  cases hWritten with
  | @short d hMeaning =>
      have hNoCode : d ≠ 'u' := by
        rintro rfl
        cases hMeaning
      simp only [List.cons_append, List.nil_append]
      rw [bodyLength?]
      · rw [hMeaning]
        rfl
      · rintro d₁ d₂ d₃ d₄ cs rfl
        exact absurd rfl hNoCode
  | code hDigits hSmall =>
      simp only [List.cons_append, List.nil_append]
      rw [bodyLength?, hDigits]
      rfl
  | plain hQuote hBackslash hPrintable =>
      simp only [List.cons_append, List.nil_append]
      rw [bodyLength?, if_neg hPrintable]
      · rfl
      · intro hStart
        exact hQuote hStart
      · intro _ _ _ _ _ hStart _
        exact hBackslash hStart
      · intro _ _ hStart _
        exact hBackslash hStart

/- A body ends at the quote behind it, and not before. -/
theorem bodyLength?_escape
    (n : Nat)
    (cs rest : List Char) :
    bodyLength? n (cs.flatMap escapeChar ++ '"' :: rest) =
      some (n + (cs.flatMap escapeChar).length) := by
  induction cs generalizing n with
  | nil => rfl
  | cons c cs ih =>
      rw [List.flatMap_cons, List.append_assoc,
        bodyLength?_of_escaped (escaped_escapeChar c), ih,
        List.length_append, Nat.add_assoc]

end Lexeme

end Json

end FeSyntax
