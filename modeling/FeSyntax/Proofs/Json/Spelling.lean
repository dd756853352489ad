import FeSyntax.Proofs.Json.Escape
import FeSyntax.Proofs.Text.Decimal

/-
  This file defines how the lexemes of JSON are spelled, and
  proves that a text that spells lexemes in a row, with any
  blanks between them, is cut into these lexemes.  A number
  is the one lexeme that has to be told apart from what
  follows it.

  Key definitions include:
    * `Json.Lexeme.spelling`
    * `Json.Lexeme.IsWritten`
    * `Json.Lexeme.ContinuesNumber`
    * `Json.Lexeme.Spells`

  Key theorems include:
    * `Json.Lexeme.numberLength?_toDigits`
    * `Json.Lexeme.scan?_spelling`
    * `Json.Lexeme.scanAll?_of_spells`
-/

namespace FeSyntax

namespace Json

namespace Lexeme

------------------------------------------------------------
-- Spellings
------------------------------------------------------------

/- How a lexeme is spelled. -/
def spelling : Lexeme → List Char
  | openArray => ['[']
  | closeArray => [']']
  | openObject => ['\x7b']
  | closeObject => ['\x7d']
  | colon => [':']
  | comma => [',']
  | null => ['n', 'u', 'l', 'l']
  | bool true => ['t', 'r', 'u', 'e']
  | bool false => ['f', 'a', 'l', 's', 'e']
  | number lexeme => lexeme.toList
  | string body => '"' :: (body.toList ++ ['"'])

/-
  The lexemes that are written: numbers are natural numbers
  and the body of a string stands for some text.
-/
inductive IsWritten : Lexeme → Prop where
  | openArray : IsWritten .openArray
  | closeArray : IsWritten .closeArray
  | openObject : IsWritten .openObject
  | closeObject : IsWritten .closeObject
  | colon : IsWritten .colon
  | comma : IsWritten .comma
  | null : IsWritten .null
  | bool
      (b : Bool) :
      IsWritten (.bool b)
  | number
      (n : Nat) :
      IsWritten (.number (toString n))
  | string
      (s : String) :
      IsWritten (.string (Body.escape s))

------------------------------------------------------------
-- Numbers
------------------------------------------------------------

/- The characters that go on with a number of digits. -/
def ContinuesNumber
    (c : Char) : Prop :=
  Text.IsDigit c ∨ c = '.' ∨ c = 'e' ∨ c = 'E'

instance
    (c : Char) :
    Decidable (ContinuesNumber c) := by
  unfold ContinuesNumber
  infer_instance

/- Nothing in front of the characters goes on. -/
def EndsNumber
    (cs : List Char) : Prop :=
  ∀ c ∈ cs.head?, ¬ ContinuesNumber c

theorem endsNumber_cons
    {c : Char}
    (hEnd : ¬ ContinuesNumber c)
    (cs : List Char) :
    EndsNumber (c :: cs) := by
  rintro d ⟨⟩
  exact hEnd

/- What starts with a number starts with a digit. -/
theorem exists_digit_of_toDigits
    (n : Nat)
    (rest : List Char) :
    ∃ c cs,
      Nat.toDigits 10 n ++ rest = c :: cs ∧
        Text.IsDigit c := by
  have hSome : Nat.toDigits 10 n ≠ [] :=
    Nat.toDigits_ne_nil
  rcases List.exists_cons_of_ne_nil hSome with
    ⟨c, digits, hDigits⟩
  refine ⟨c, digits ++ rest, by rw [hDigits]; rfl, ?_⟩
  apply Text.isDigit_of_mem_toDigits (n := n)
  rw [hDigits]
  exact .head _

section Numbers

variable {rest : List Char}
variable (hEnds : EndsNumber rest)

include hEnds

/- Digits end where the characters behind them say so. -/
theorem digitsLength_append
    {digits : List Char}
    (hDigits : ∀ c ∈ digits, Text.IsDigit c) :
    digitsLength (digits ++ rest) = digits.length := by
  have hStop :
      rest.takeWhile (fun c => Text.IsDigit c) = [] := by
    cases rest with
    | nil => rfl
    | cons c cs =>
        refine List.takeWhile_cons_of_neg ?_
        intro hDigit
        exact hEnds c rfl (.inl (of_decide_eq_true hDigit))
  rw [digitsLength,
    List.takeWhile_append_of_pos fun c hMem =>
      decide_eq_true (hDigits c hMem),
    hStop, List.append_nil]

/- A number starts with a zero only if it is nothing else. -/
theorem integerLength?_toDigits
    (n : Nat) :
    integerLength? (Nat.toDigits 10 n ++ rest) =
      some (Nat.toDigits 10 n).length := by
  rcases Nat.eq_zero_or_pos n with rfl | hPos
  · rfl
  · have hLength :=
      digitsLength_append hEnds fun c =>
        Text.isDigit_of_mem_toDigits (n := n)
    have hFront := Text.head?_toDigits_ne_zero hPos
    have hSome : (Nat.toDigits 10 n).length ≠ 0 :=
      Nat.ne_of_gt Nat.length_toDigits_pos
    rw [integerLength?]
    · rw [hLength]
      split
      next hZero => exact absurd hZero hSome
      next => rfl
    · intro cs hZero
      refine hFront ?_
      rw [← List.head?_append_of_ne_nil _
        Nat.toDigits_ne_nil, hZero]
      rfl

theorem fractionLength?_of_endsNumber :
    fractionLength? rest = some 0 := by
  rw [fractionLength?]
  rintro cs rfl
  exact hEnds '.' rfl (.inr (.inl rfl))

theorem exponentLength?_of_endsNumber :
    exponentLength? rest = some 0 := by
  cases rest with
  | nil => rfl
  | cons c cs =>
      have hNoLetter : ¬ (c = 'e' ∨ c = 'E') := fun h =>
        hEnds c rfl (.inr (.inr h))
      rw [exponentLength?, if_neg hNoLetter]

/- The digits of a natural number are a number. -/
theorem numberLength?_toDigits
    (n : Nat) :
    numberLength? (Nat.toDigits 10 n ++ rest) =
      some (Nat.toDigits 10 n).length := by
  rw [numberLength?]
  · simp only [List.drop_zero, Nat.zero_add, List.drop_left,
      Nat.add_zero, integerLength?_toDigits hEnds,
      fractionLength?_of_endsNumber hEnds,
      exponentLength?_of_endsNumber hEnds,
      Option.bind_eq_bind, Option.bind_some,
      Option.pure_def]
  · intro cs hSign
    rcases exists_digit_of_toDigits n rest with
      ⟨c, ds, hStart, hDigit⟩
    cases hStart.symm.trans hSign
    exact absurd hDigit (by decide)

end Numbers

------------------------------------------------------------
-- Single Lexemes
------------------------------------------------------------

/- No fixed spelling starts with a digit. -/
theorem scanFixed?_of_digit
    {c : Char}
    (hDigit : Text.IsDigit c)
    (cs : List Char) :
    scanFixed? (c :: cs) = none := by
  unfold scanFixed?
  split
  all_goals
    first
    | rfl
    | (rename_i h
       cases h
       exact absurd hDigit (by decide))

/-
  A number is one lexeme, if it ends where its digits do.
-/
theorem scan?_number
    {rest : List Char}
    (hEnds : EndsNumber rest)
    (n : Nat) :
    scan? (Nat.toDigits 10 n ++ rest) =
      some
        (number (toString n),
          (Nat.toDigits 10 n).length) := by
  have hText :
      String.ofList (Nat.toDigits 10 n) = toString n :=
    Nat.toString_eq_ofList_toDigits.symm
  rcases exists_digit_of_toDigits n rest with
    ⟨c, cs, hStart, hDigit⟩
  have hQuote : c ≠ '"' := by
    rintro rfl
    exact absurd hDigit (by decide)
  have hVariable :
      scanVariable? (c :: cs) =
        (numberLength? (c :: cs)).map fun k =>
          (number (leading k (c :: cs)), k) := by
    rw [Option.map_eq_bind, scanVariable?]
    · rfl
    · rintro body ⟨⟩
      exact hQuote rfl
  rw [scan?, hStart, scanFixed?_of_digit hDigit, hVariable,
    ← hStart, numberLength?_toDigits hEnds, Option.map_some,
    leading, List.take_left, hText]
  rfl

/- A text between quotes is one lexeme, with its escapes. -/
theorem scan?_string
    (s : String)
    (rest : List Char) :
    scan? ('"' :: ((Body.escape s).toList ++ '"' :: rest)) =
      some
        (string (Body.escape s),
          (Body.escape s).toList.length + 2) := by
  have hLength :
      bodyLength? 0
          ((Body.escape s).toList ++ '"' :: rest) =
        some (Body.escape s).toList.length := by
    rw [Body.escape, String.toList_ofList,
      bodyLength?_escape, Nat.zero_add]
  have hVariable (body : List Char) :
      scan? ('"' :: body) =
        (bodyLength? 0 body).map fun n =>
          (string (leading n body), n + 2) := by
    rw [Option.map_eq_bind]
    rfl
  rw [hVariable, hLength, Option.map_some, leading,
    List.take_left, String.ofList_toList]

/- Where a lexeme is a number, the number ends there. -/
def EndsBefore
    (rest : List Char)
    (l : Lexeme) : Prop :=
  ∀ lexeme, l = number lexeme → EndsNumber rest

/- A lexeme that is written is scanned as itself. -/
theorem scan?_spelling
    {l : Lexeme}
    {rest : List Char}
    (hWritten : l.IsWritten)
    (hEnds : l.EndsBefore rest) :
    scan? (l.spelling ++ rest) =
      some (l, l.spelling.length) := by
  cases hWritten with
  | number n =>
      rw [spelling, Text.toList_toString]
      exact scan?_number (hEnds _ rfl) n
  | string s =>
      rw [spelling, List.cons_append, List.append_assoc,
        List.singleton_append, scan?_string,
        List.length_cons, List.length_append]
      rfl
  | bool b => cases b <;> rfl
  | _ => rfl

/- No blank goes on with a number. -/
theorem not_continuesNumber_of_isBlank
    {c : Char}
    (hBlank : isBlank c = true) :
    ¬ ContinuesNumber c := by
  simp only [isBlank, Bool.or_eq_true, decide_eq_true_eq]
    at hBlank
  rcases hBlank with ((rfl | rfl) | rfl) | rfl <;> decide

/- No lexeme that is written starts with a blank. -/
theorem exists_spelling_eq_cons
    {l : Lexeme}
    (hWritten : l.IsWritten) :
    ∃ c cs, l.spelling = c :: cs ∧ isBlank c = false := by
  cases hWritten with
  | number n =>
      rcases exists_digit_of_toDigits n [] with
        ⟨c, cs, hStart, hDigit⟩
      refine ⟨c, cs, ?_, ?_⟩
      · rw [← hStart, List.append_nil]
        exact Text.toList_toString n
      · rw [Bool.eq_false_iff]
        intro hBlank
        exact
          not_continuesNumber_of_isBlank hBlank
            (.inl hDigit)
  | bool b => cases b <;> exact ⟨_, _, rfl, rfl⟩
  | _ => exact ⟨_, _, rfl, rfl⟩

------------------------------------------------------------
-- Lexemes In A Row
------------------------------------------------------------

/-
  Characters spell lexemes in a row if these stand one after
  another, with blanks only around them.
-/
inductive Spells : List Lexeme → List Char → Prop where
  | nil :
      Spells [] []
  | blank
      {c : Char}
      {ls : List Lexeme}
      {cs : List Char}
      (blank : isBlank c = true)
      (later : Spells ls cs) :
      Spells ls (c :: cs)
  | lexeme
      {l : Lexeme}
      {ls : List Lexeme}
      {cs : List Char}
      (written : l.IsWritten)
      (ends : l.EndsBefore cs)
      (later : Spells ls cs) :
      Spells (l :: ls) (l.spelling ++ cs)

/- Blanks may stand in front of any lexeme. -/
theorem Spells.blanks
    {blanks : List Char}
    {ls : List Lexeme}
    {cs : List Char}
    (hBlanks : ∀ c ∈ blanks, isBlank c = true)
    (hLater : Spells ls cs) :
    Spells ls (blanks ++ cs) := by
  induction blanks with
  | nil => exact hLater
  | cons c blanks ih =>
      rcases List.forall_mem_cons.mp hBlanks with
        ⟨hFirst, hRest⟩
      exact .blank hFirst (ih hRest)

/- Blanks in front change nothing. -/
theorem scanWithin?_blank
    {c : Char}
    (hBlank : isBlank c = true)
    (found : List Lexeme)
    (cs : List Char)
    (fuel : Nat) :
    scanWithin? found (c :: cs) fuel =
      scanWithin? found cs fuel := by
  cases fuel with
  | zero => rfl
  | succ fuel =>
      rw [scanWithin?, scanWithin?,
        List.dropWhile_cons_of_pos hBlank]

/-
  By induction on what is spelled, with enough fuel for each
  character.
-/
theorem scanWithin?_of_spells
    {ls : List Lexeme}
    {cs : List Char}
    (hSpells : Spells ls cs)
    (found : List Lexeme)
    {fuel : Nat}
    (hFuel : cs.length < fuel) :
    scanWithin? found cs fuel =
      some (found.reverse ++ ls) := by
  induction hSpells generalizing found fuel with
  | nil =>
      rcases fuel with _ | fuel
      · cases hFuel
      · rw [List.append_nil]
        rfl
  | blank hBlank hLater ih =>
      rw [scanWithin?_blank hBlank]
      exact ih found (Nat.lt_of_succ_lt hFuel)
  | @lexeme l ls cs hWritten hEnds hLater ih =>
      rcases fuel with _ | fuel
      · cases hFuel
      rcases exists_spelling_eq_cons hWritten with
        ⟨c, ds, hStart, hNoBlank⟩
      have hScan := scan?_spelling hWritten hEnds
      have hBehind :
          (l.spelling ++ cs).drop l.spelling.length = cs :=
        List.drop_left
      rw [hStart, List.cons_append] at hScan hBehind hFuel ⊢
      have hShorter : cs.length < fuel := by
        simp only [List.length_cons,
          List.length_append] at hFuel
        omega
      rw [scanWithin?,
        List.dropWhile_cons_of_neg (by simp [hNoBlank])]
      simp only [hScan]
      rw [hBehind, ih (l :: found) hShorter,
        List.reverse_cons, List.append_assoc]
      rfl

/- A text is cut into the lexemes that it spells. -/
theorem scanAll?_of_spells
    {ls : List Lexeme}
    {cs : List Char}
    (hSpells : Spells ls cs) :
    scanAll? cs = some ls :=
  scanWithin?_of_spells hSpells [] (Nat.lt_succ_self _)

end Lexeme

end Json

end FeSyntax
