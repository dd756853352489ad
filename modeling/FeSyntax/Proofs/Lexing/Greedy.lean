import FeSyntax.Proofs.Lexing.Longest

/-
  This file proves that numbers, words and punctuation
  marks, which end where they cannot go on, are scanned as
  far as they can go.

  Key theorems include:
    * `Lexeme.isLongest_scan_digit`
    * `Lexeme.isLongest_scan_letter`
    * `Lexeme.scan_other_cases`
-/

namespace FeSyntax

namespace Lexeme

------------------------------------------------------------
-- Numbers
------------------------------------------------------------

/-
  Leading digits with the suffix behind them, and a mark of
  the radix in front, are the longest token if they are a
  token and no token is longer.
-/
theorem isLongest_ofDigits
    {p : Char → Bool}
    {radix : Nat}
    {body : List Char}
    (mark : List Char)
    (hText :
      TokenText
        (mark ++ (body.takeWhile p ++
          suffixText (leadingSuffix? (body.dropWhile p))))
        (.number
          (literalValue?
            (Text.digitsValue radix (body.takeWhile p)))
          (leadingSuffix? (body.dropWhile p))))
    (hLongest :
      ∀ text kind, text <+: mark ++ body →
        TokenText text kind →
          text.length ≤ mark.length +
            ((body.takeWhile p).length +
              (suffixText
                (leadingSuffix?
                  (body.dropWhile p))).length)) :
    IsLongest (mark ++ body)
      (ofDigits radix mark.length
        (body.takeWhile p) (body.dropWhile p)) := by
  rcases suffixText_leadingSuffix? (body.dropWhile p) with
    ⟨rest, hRest⟩
  have hSplit :
      mark ++ body =
        (mark ++ (body.takeWhile p ++
          suffixText
            (leadingSuffix? (body.dropWhile p)))) ++
        rest := by
    rw [List.append_assoc, List.append_assoc, hRest,
      List.takeWhile_append_dropWhile]
  have hLexeme :
      ofDigits radix mark.length
          (body.takeWhile p) (body.dropWhile p) =
        ⟨ .number
            (literalValue?
              (Text.digitsValue radix (body.takeWhile p)))
            (leadingSuffix? (body.dropWhile p)),
          (mark ++ (body.takeWhile p ++
            suffixText
              (leadingSuffix? (body.dropWhile p)))).length ⟩
      := by
    simp only [ofDigits, length_suffixText,
      List.length_append, Nat.add_assoc]
  rw [hLexeme]
  have hLong := IsLongest.of_append rest hText
  rw [← hSplit] at hLong
  apply hLong
  intro text kind hPrefix hToken
  have hLe := hLongest text kind hPrefix hToken
  simpa only [List.length_append] using hLe

/- The mark `0x` stands in front, with a digit behind it. -/
def StartsHexadecimal
    (cs : List Char) : Prop :=
  ∃ d, Text.IsHexDigit d ∧ ['0', 'x', d] <+: cs

/- Any other number is longest if it is read as decimal. -/
theorem isLongest_decimal
    {c : Char}
    {rest : List Char}
    (hDigit : Text.IsDigit c)
    (hMark : ¬ StartsHexadecimal (c :: rest)) :
    IsLongest (c :: rest)
      (ofDigits 10 0
        ((c :: rest).takeWhile (fun d => Text.IsDigit d))
        ((c :: rest).dropWhile
          (fun d => Text.IsDigit d))) := by
  have hSome :
      (c :: rest).takeWhile
        (fun d => Text.IsDigit d) ≠ [] := by
    simp [hDigit]
  apply isLongest_ofDigits []
    (.decimal _ hSome (fun d hMem => of_mem_takeWhile hMem))
  apply longest_of_cons
  intro tail kind hPrefix hToken
  have hWhole : c :: tail <+: c :: rest := by
    rw [List.cons_prefix_cons]
    exact ⟨rfl, hPrefix⟩
  rcases hToken.of_digit hDigit with
    ⟨digits, suffix, hSame, _, hDigits, _⟩ |
    ⟨digits, suffix, hSame, hHexSome, hDigits, _⟩
  · rw [hSame] at hWhole
    have hLe := length_le_of_digits
      (p := fun d => Text.IsDigit d)
      (by decide) (by simpa using hDigits) hWhole
    rw [hSame]
    simpa using hLe
  · cases digits with
    | nil => exact absurd rfl hHexSome
    | cons d digits =>
        have hHex := hDigits d List.mem_cons_self
        have hFront : ['0', 'x', d] <+: c :: tail := by
          rw [hSame]
          exact ⟨digits ++ suffixText suffix, by simp⟩
        exact absurd ⟨d, hHex, hFront.trans hWhole⟩ hMark

/-
  A number with a mark and a digit behind it is longer than
  the zero of the mark.
-/
theorem isLongest_hexadecimal
    {d : Char}
    {rest : List Char}
    (hDigit : Text.IsHexDigit d) :
    IsLongest ('0' :: 'x' :: d :: rest)
      (ofDigits 16 2
        ((d :: rest).takeWhile (fun e => Text.IsHexDigit e))
        ((d :: rest).dropWhile
          (fun e => Text.IsHexDigit e))) := by
  have hSome :
      (d :: rest).takeWhile
        (fun e => Text.IsHexDigit e) ≠ [] := by
    simp [hDigit]
  apply isLongest_ofDigits ['0', 'x']
    (.hexadecimal _ hSome
      (fun e hMem => of_mem_takeWhile hMem))
  apply longest_of_cons
  intro tail kind hPrefix hToken
  have hWhole :
      '0' :: tail <+: '0' :: 'x' :: d :: rest := by
    rw [List.cons_prefix_cons]
    exact ⟨rfl, hPrefix⟩
  rcases hToken.of_digit (by decide) with
    ⟨digits, suffix, hSame, hDecSome, hDigits, _⟩ |
    ⟨digits, suffix, hSame, _, hDigits, _⟩
  · rw [hSame] at hWhole
    have hZero :=
      decimal_before_mark hDecSome hDigits hWhole
    rw [hSame, hZero]
    simp only [List.length_cons, List.length_nil]
    omega
  · rw [hSame, List.cons_prefix_cons, List.cons_prefix_cons]
      at hWhole
    have hLe := length_le_of_digits
      (p := fun e => Text.IsHexDigit e)
      (by decide) (by simpa using hDigits) hWhole.2.2
    rw [hSame]
    simp only [List.length_cons, List.length_nil]
    omega

/- What starts with a digit is scanned as a number. -/
theorem scan_digit
    {c : Char}
    {lexeme : Lexeme}
    {rest : List Char}
    (hDigit : Text.IsDigit c)
    (hNumber : number? (c :: rest) = some lexeme) :
    scan (c :: rest) = lexeme := by
  have hSlash : c ≠ '/' := by
    rintro rfl
    exact absurd hDigit (by decide)
  have hQuote : c ≠ '"' := by
    rintro rfl
    exact absurd hDigit (by decide)
  simp [scan, comment?_eq_none hSlash,
    string?_eq_none hQuote, hNumber]

/- Without a marked digit a number is decimal. -/
theorem number?_eq_decimal?
    {cs : List Char}
    (hMark : ¬ StartsHexadecimal cs) :
    number? cs = decimal? cs := by
  unfold number?
  split
  · next body =>
      split
      · rfl
      · next digits hRun =>
          cases body with
          | nil => simp at hRun
          | cons d body =>
              by_cases hHex : Text.IsHexDigit d
              · exact absurd ⟨d, hHex, body, rfl⟩ hMark
              · simp [hHex] at hRun
  · rfl

theorem isLongest_scan_digit
    {c : Char}
    {rest : List Char}
    (hDigit : Text.IsDigit c) :
    IsLongest (c :: rest) (scan (c :: rest)) := by
  by_cases hMark : StartsHexadecimal (c :: rest)
  · rcases hMark with ⟨d, hHex, tail, hSame⟩
    have hNumber :
        number? ('0' :: 'x' :: d :: tail) =
          some
            (ofDigits 16 2
              ((d :: tail).takeWhile
                (fun e => Text.IsHexDigit e))
              ((d :: tail).dropWhile
                (fun e => Text.IsHexDigit e))) := by
      simp [number?, hHex]
    rw [← hSame]
    have hScan := scan_digit (by decide) hNumber
    simp only [List.cons_append, List.nil_append]
    rw [hScan]
    exact isLongest_hexadecimal hHex
  · have hNumber :
        number? (c :: rest) =
          some
            (ofDigits 10 0
              ((c :: rest).takeWhile
                (fun d => Text.IsDigit d))
              ((c :: rest).dropWhile
                (fun d => Text.IsDigit d))) := by
      rw [number?_eq_decimal? hMark]
      simp [decimal?, hDigit]
    rw [scan_digit hDigit hNumber]
    exact isLongest_decimal hDigit hMark

------------------------------------------------------------
-- Words
------------------------------------------------------------

/- What starts like a word is scanned as a word. -/
theorem scan_letter
    {c : Char}
    {rest : List Char}
    (hStart : StartsWord c) :
    scan (c :: rest) =
      ⟨ .ofWord
          (String.ofList
            (c :: rest.takeWhile
              (fun d => ContinuesWord d))),
        (c :: rest.takeWhile
          (fun d => ContinuesWord d)).length ⟩ := by
  have hSlash : c ≠ '/' := by
    rintro rfl
    exact absurd hStart (by decide)
  have hQuote : c ≠ '"' := by
    rintro rfl
    exact absurd hStart (by decide)
  have hDigit : ¬ Text.IsDigit c :=
    fun hDigit => not_startsWord_of_isDigit hDigit hStart
  simp [scan, comment?_eq_none hSlash,
    string?_eq_none hQuote, number?_eq_none hDigit, word?,
    hStart]

theorem isLongest_scan_letter
    {c : Char}
    {rest : List Char}
    (hStart : StartsWord c) :
    IsLongest (c :: rest) (scan (c :: rest)) := by
  have hSplit :
      c :: rest =
        (c :: rest.takeWhile (fun d => ContinuesWord d)) ++
          rest.dropWhile (fun d => ContinuesWord d) := by
    simp
  have hText :
      TokenText
        (c :: rest.takeWhile (fun d => ContinuesWord d))
        _ :=
    .word hStart (fun d hMem => of_mem_takeWhile hMem)
  have hLong := IsLongest.of_append
    (rest.dropWhile (fun d => ContinuesWord d)) hText
  rw [← hSplit] at hLong
  rw [scan_letter hStart]
  apply hLong
  apply longest_of_cons
  intro tail kind hPrefix hToken
  have hRest := (hToken.of_letter hStart).1
  have hLe : tail.length ≤
      (rest.takeWhile (fun d => ContinuesWord d)).length :=
    length_le_takeWhile hPrefix (by simpa using hRest)
  simp only [List.length_cons]
  omega

------------------------------------------------------------
-- Punctuation Marks
------------------------------------------------------------

/- A mark of two characters is found before any other. -/
theorem punct?_of_two
    {p : Punct}
    {cs : List Char}
    (hTwo : p.spelling.length = 2)
    (hPrefix : p.spelling.toList <+: cs) :
    punct? cs = some ⟨.punct p, 2⟩ := by
  rcases hPrefix with ⟨rest, rfl⟩
  cases p <;> first | rfl | exact absurd hTwo (by decide)

/- A mark has one or two characters. -/
theorem length_spelling
    (p : Punct) :
    p.spelling.length = 1 ∨ p.spelling.length = 2 := by
  cases p <;> decide

/- The mark that is found is the longest one. -/
theorem punct?_longest
    {p q : Punct}
    {cs : List Char}
    (hFound :
      punct? cs = some ⟨.punct p, p.spelling.length⟩)
    (hPrefix : q.spelling.toList <+: cs) :
    q.spelling.length ≤ p.spelling.length := by
  rcases length_spelling q with hOne | hTwo
  · rcases length_spelling p with hLength | hLength
    · omega
    · omega
  · rw [punct?_of_two hTwo hPrefix] at hFound
    simp only [Option.some.injEq, Lexeme.mk.injEq] at hFound
    omega

theorem scan_other_cases
    {c : Char}
    {rest : List Char}
    (hSlash : c ≠ '/')
    (hQuote : c ≠ '"')
    (hDigit : ¬ Text.IsDigit c)
    (hStart : ¬ StartsWord c) :
    IsLongest (c :: rest) (scan (c :: rest)) ∨
      IsMalformed (c :: rest) (scan (c :: rest)) := by
  have hScan :
      scan (c :: rest) =
        (punct? (c :: rest)).getD
          (unexpected (c :: rest)) := by
    simp [scan, comment?_eq_none hSlash,
      string?_eq_none hQuote, number?_eq_none hDigit,
      word?_eq_none hStart]
  cases hFound :
      Punct.all.find?
        (fun p => p.spelling.toList.isPrefixOf (c :: rest))
    with
  | some p =>
      left
      have hPunct :
          punct? (c :: rest) =
            some ⟨.punct p, p.spelling.length⟩ := by
        simp [punct?, hFound]
      have hPrefix : p.spelling.toList <+: c :: rest := by
        simpa using List.find?_some hFound
      rw [hScan, hPunct, Option.getD_some]
      rcases hPrefix with ⟨tail, hSame⟩
      have hLong :=
        IsLongest.of_append tail (TokenText.punct p)
      rw [hSame, String.length_toList] at hLong
      apply hLong
      apply longest_of_cons
      intro body kind hBody hToken
      rcases hToken.of_other hSlash hQuote hDigit hStart
        with ⟨q, hSpell, _⟩
      rw [← hSpell, String.length_toList]
      apply punct?_longest hPunct
      rw [hSpell, List.cons_prefix_cons]
      exact ⟨rfl, hBody⟩
  | none =>
      right
      have hPunct : punct? (c :: rest) = none := by
        simp [punct?, hFound]
      rw [hScan, hPunct, Option.getD_none]
      refine
        { length_le := by simp [unexpected]
          noToken := ?_
          text := ⟨_, rfl, ?_⟩ }
      · apply noToken_of_cons
        intro body kind hBody hToken
        rcases hToken.of_other hSlash hQuote hDigit hStart
          with ⟨q, hSpell, _⟩
        have hNot :=
          List.find?_eq_none.mp hFound q (Punct.mem_all q)
        rw [hSpell] at hNot
        simp only [List.isPrefixOf_iff_prefix,
          List.cons_prefix_cons, true_and] at hNot
        exact hNot hBody
      · simp only [unexpected, List.take_succ_cons,
          List.take_zero]
        apply MalformedText.unexpectedCharacter hQuote
        rw [List.cons_prefix_cons]
        exact fun hComment => hSlash hComment.1.symm

end Lexeme

end FeSyntax
