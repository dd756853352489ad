import FeSyntax.Proofs.Lexing.Longest

/-
  This file proves that comments and strings, whose ends are
  marked, are scanned to the right end: a comment to the end
  of its line or to its first closing mark, a string to the
  quote that closes it, and each of them, where nothing ends
  it, as far as the error reaches.

  Key definitions include:
    * `Lexeme.StringScan`

  Key theorems include:
    * `Lexeme.scan_slash_cases`
    * `Lexeme.scan_quote_cases`
-/

namespace FeSyntax

namespace Lexeme

------------------------------------------------------------
-- Comments
------------------------------------------------------------

/- A line comment goes on to the end of its line. -/
theorem isLongest_lineComment
    (rest : List Char) :
    IsLongest ('/' :: '/' :: rest)
      ⟨ .comment,
        lineCommentLength ('/' :: '/' :: rest) ⟩ := by
  let p : Char → Bool := fun c => ¬ EndsLine c
  have hSplit :
      '/' :: '/' :: rest =
        ('/' :: '/' :: rest.takeWhile p) ++
          rest.dropWhile p := by
    simp
  have hLength :
      lineCommentLength ('/' :: '/' :: rest) =
        ('/' :: '/' :: rest.takeWhile p).length := by
    have hSlash : ¬ EndsLine '/' := by decide
    simp [lineCommentLength, p, hSlash]
  have hText :
      TokenText ('/' :: '/' :: rest.takeWhile p)
        .comment := by
    apply TokenText.lineComment
    intro c hMem
    exact of_mem_takeWhile hMem
  rw [hLength, hSplit]
  apply IsLongest.of_append _ hText
  rw [← hSplit]
  apply longest_of_cons
  intro tail kind hPrefix hTail
  rcases hTail.of_slash.1 with
    ⟨body, rfl, hBody⟩ | ⟨body, rfl, _⟩
  · rw [List.cons_prefix_cons] at hPrefix
    have hRun : body.length ≤ (rest.takeWhile p).length :=
      length_le_takeWhile hPrefix.2
        (by simpa [p] using hBody)
    simpa using hRun
  · rw [List.cons_prefix_cons] at hPrefix
    exact absurd hPrefix.1 (by decide)

/- A block comment goes on to its first closing mark. -/
theorem isLongest_blockComment
    {body rest : List Char}
    (hFirst : ¬ ['*', '/'] <:+: body ++ ['*']) :
    IsLongest ('/' :: '*' :: (body ++ '*' :: '/' :: rest))
      ⟨.comment, 2 + body.length + 2⟩ := by
  have hSplit :
      '/' :: '*' :: (body ++ '*' :: '/' :: rest) =
        ('/' :: '*' :: (body ++ ['*', '/'])) ++ rest := by
    simp
  have hLength :
      2 + body.length + 2 =
        ('/' :: '*' :: (body ++ ['*', '/'])).length := by
    simp only [List.length_cons, List.length_append,
      List.length_nil]
    omega
  rw [hLength, hSplit]
  apply IsLongest.of_append _ (.blockComment hFirst)
  rw [← hSplit]
  apply longest_of_cons
  intro tail kind hPrefix hTail
  rcases hTail.of_slash.1 with
    ⟨other, rfl, _⟩ | ⟨other, rfl, hOther⟩
  · rw [List.cons_prefix_cons] at hPrefix
    exact absurd hPrefix.1 (by decide)
  · rw [List.cons_prefix_cons] at hPrefix
    have hBody :
        body ++ ['*', '/'] <+: body ++ '*' :: '/' :: rest :=
      ⟨rest, by simp⟩
    have hLe : other.length ≤ body.length :=
      length_le_of_first_close hBody hPrefix.2 hOther
    simp only [List.length_cons, List.length_append,
      List.length_nil]
    omega

/- A block comment that nothing closes is malformed. -/
theorem isMalformed_openComment
    {body : List Char}
    (hOpen : ¬ ['*', '/'] <:+: body) :
    IsMalformed ('/' :: '*' :: body)
      ⟨.error .unterminatedComment,
        ('/' :: '*' :: body).length⟩ where
  length_le := Nat.le_refl _
  noToken := by
    apply noToken_of_cons
    intro tail kind hPrefix hTail
    rcases hTail.of_slash.1 with
      ⟨other, rfl, _⟩ | ⟨other, rfl, _⟩
    · rw [List.cons_prefix_cons] at hPrefix
      exact absurd hPrefix.1 (by decide)
    · rw [List.cons_prefix_cons] at hPrefix
      apply hOpen
      exact List.IsInfix.trans
        (List.suffix_append other ['*', '/']).isInfix
        hPrefix.2.isInfix
  text := by
    refine ⟨_, rfl, ?_⟩
    rw [List.take_length]
    exact .unterminatedComment hOpen

/- A slash that starts no comment is malformed. -/
theorem isMalformed_slash
    {rest : List Char}
    (hLine : ¬ ['/'] <+: rest)
    (hBlock : ¬ ['*'] <+: rest) :
    IsMalformed ('/' :: rest)
      ⟨.error (.unexpectedCharacter '/'), 1⟩ where
  length_le := by simp
  noToken := by
    apply noToken_of_cons
    intro tail kind hPrefix hTail
    rcases hTail.of_slash.1 with
      ⟨body, rfl, _⟩ | ⟨body, rfl, _⟩
    · exact hLine
        (List.IsPrefix.trans ⟨body, rfl⟩ hPrefix)
    · exact hBlock
        (List.IsPrefix.trans ⟨_, rfl⟩ hPrefix)
  text := by
    refine ⟨_, rfl, ?_⟩
    rw [List.take_succ_cons, List.take_zero]
    apply MalformedText.unexpectedCharacter (by decide)
    rw [List.cons_prefix_cons]
    exact fun hComment => hBlock hComment.2

/- What starts with a slash is scanned as a comment. -/
theorem scan_slash
    (rest : List Char) :
    scan ('/' :: rest) =
      (comment? ('/' :: rest)).getD
        (unexpected ('/' :: rest)) := by
  have hPunct : punct? ('/' :: rest) = none :=
    punct?_eq_none (spelling_not_in_front (Or.inl rfl) rest)
  simp [scan, string?_eq_none, number?_eq_none,
    word?_eq_none, hPunct,
    show ¬ Text.IsDigit '/' by decide,
    show ¬ StartsWord '/' by decide]

theorem scan_slash_cases
    (rest : List Char) :
    IsLongest ('/' :: rest) (scan ('/' :: rest)) ∨
      IsMalformed ('/' :: rest) (scan ('/' :: rest)) := by
  rw [scan_slash]
  by_cases hLine : ['/'] <+: rest
  · rcases hLine with ⟨rest, rfl⟩
    exact Or.inl (isLongest_lineComment rest)
  by_cases hBlock : ['*'] <+: rest
  · rcases hBlock with ⟨body, rfl⟩
    rw [List.singleton_append]
    cases hStop : closingMarkEnd? 2 body with
    | some stop =>
        left
        rcases closingMarkEnd?_eq_some hStop with
          ⟨inner, rest, rfl, hFirst, rfl⟩
        simp only [comment?, hStop, Option.getD_some]
        exact isLongest_blockComment hFirst
    | none =>
        right
        simp only [comment?, hStop, Option.getD_some]
        exact isMalformed_openComment
          (not_infix_of_closingMarkEnd?_eq_none hStop)
  · right
    have hNone : comment? ('/' :: rest) = none := by
      unfold comment?
      split
      · simp_all
      · simp_all
      · rfl
    rw [hNone]
    exact isMalformed_slash hLine hBlock

------------------------------------------------------------
-- Strings
------------------------------------------------------------

/-
  How the scan behind an opening quote ends, when `value`
  was read in reverse and `n` characters were counted.
-/
inductive StringScan
    (value : List Char)
    (n : Nat)
    (cs : List Char)
    (lexeme : Lexeme) : Prop where
  | closed
      {text more rest : List Char}
      (hText : StringText text more)
      (hSame : cs = text ++ '"' :: rest)
      (hLexeme :
        lexeme =
          ⟨ .string (String.ofList (value.reverse ++ more)),
            n + text.length + 1 ⟩)
  | lineEnd
      {text more rest : List Char}
      {c : Char}
      (hText : StringText text more)
      (hLine : EndsLine c)
      (hSame : cs = text ++ '\\' :: c :: rest)
      (hLexeme :
        lexeme =
          ⟨.error .invalidEscape, n + text.length + 1⟩)
  | unterminated
      {text more tail : List Char}
      (hText : StringText text more)
      (hStop : StringStop tail (some .unterminatedString))
      (hSame : cs = text ++ tail)
      (hLexeme :
        lexeme =
          ⟨.error .unterminatedString, n + cs.length⟩)

/- The scan behind one more character of the text. -/
theorem StringScan.cons
    {front cs value : List Char}
    {c : Char}
    {n : Nat}
    {lexeme : Lexeme}
    (hFront :
      ∀ text more, StringText text more →
        StringText (front ++ text) (c :: more))
    (hScan :
      StringScan (c :: value) (n + front.length) cs
        lexeme) :
    StringScan value n (front ++ cs) lexeme := by
  cases hScan with
  | closed hText hSame hLexeme =>
      refine .closed (hFront _ _ hText)
        (by rw [hSame, List.append_assoc]) ?_
      rw [hLexeme]
      simp [Nat.add_assoc]
  | lineEnd hText hLine hSame hLexeme =>
      refine .lineEnd (hFront _ _ hText) hLine
        (by rw [hSame, List.append_assoc]) ?_
      rw [hLexeme]
      simp [Nat.add_assoc]
  | unterminated hText hStop hSame hLexeme =>
      refine .unterminated (hFront _ _ hText) hStop
        (by rw [hSame, List.append_assoc]) ?_
      rw [hLexeme]
      simp [Nat.add_assoc]

theorem stringBody_scan
    (value : List Char)
    (n : Nat)
    (cs : List Char) :
    StringScan value n cs (stringBody value n cs) := by
  fun_induction stringBody value n cs with
  | case1 value n rest =>
      exact .closed .nil rfl (by simp)
  | case2 value n c cs hLine =>
      exact .lineEnd .nil hLine rfl (by simp)
  | case3 value n c cs hLine ih =>
      change StringScan value n (['\\', c] ++ cs) _
      exact ih.cons (fun _ _ hText => .escape hLine hText)
  | case4 value n =>
      exact .unterminated .nil .loneEscape rfl (by simp)
  | case5 value n c cs hQuote hEscape hLone ih =>
      have hPlain : c ≠ '\\' := by
        intro hSame
        cases cs with
        | nil => exact hLone hSame rfl
        | cons d cs => exact hEscape d cs hSame rfl
      change StringScan value n ([c] ++ cs) _
      exact ih.cons
        (fun _ _ hText => .plain hQuote hPlain hText)
  | case6 value n =>
      exact .unterminated .nil .endOfText rfl (by simp)

/-
  A string in front of a text closes where the text of the
  string stops.
-/
theorem StringText.closes
    {text more tail inner value : List Char}
    {stop : Option LexError}
    (hText : StringText text more)
    (hStop : StringStop tail stop)
    (hInner : StringText inner value)
    (hPrefix : inner ++ ['"'] <+: text ++ tail) :
    inner = text ∧ stop = none := by
  rcases hPrefix with ⟨rest, hSame⟩
  rw [List.append_assoc] at hSame
  rcases hInner.unique hText (.closed rest) hStop hSame with
    ⟨hEq, _, hTail⟩
  refine ⟨hEq, ?_⟩
  subst hTail
  cases hStop with
  | closed _ => rfl

/- Where a string does not close, no token is in front. -/
theorem noToken_of_stop
    {text more tail : List Char}
    {cause : LexError}
    (hText : StringText text more)
    (hStop : StringStop tail (some cause)) :
    ∀ p kind, p <+: '"' :: (text ++ tail) →
      ¬ TokenText p kind := by
  apply noToken_of_cons
  intro p kind hPrefix hToken
  rcases hToken.of_quote with ⟨inner, value, rfl, hInner, _⟩
  have hNone := (hText.closes hStop hInner hPrefix).2
  exact absurd hNone (by simp)

/- A string goes on to the quote that closes it. -/
theorem isLongest_string
    {text more rest : List Char}
    (hText : StringText text more) :
    IsLongest ('"' :: (text ++ '"' :: rest))
      ⟨ .string (String.ofList more),
        1 + text.length + 1 ⟩ := by
  have hSplit :
      '"' :: (text ++ '"' :: rest) =
        ('"' :: (text ++ ['"'])) ++ rest := by
    simp
  have hLength :
      1 + text.length + 1 =
        ('"' :: (text ++ ['"'])).length := by
    simp only [List.length_cons, List.length_append,
      List.length_nil]
    omega
  rw [hLength, hSplit]
  apply IsLongest.of_append _ (.string hText)
  rw [← hSplit]
  apply longest_of_cons
  intro tail kind hPrefix hTail
  rcases hTail.of_quote with ⟨inner, value, rfl, hInner, _⟩
  rcases hText.closes (.closed rest) hInner hPrefix with
    ⟨rfl, _⟩
  exact Nat.le_refl _

/- What starts with a quote is scanned as a string. -/
theorem scan_quote
    (rest : List Char) :
    scan ('"' :: rest) = stringBody [] 1 rest := by
  simp [scan, comment?_eq_none, string?]

theorem scan_quote_cases
    (rest : List Char) :
    IsLongest ('"' :: rest) (scan ('"' :: rest)) ∨
      IsMalformed ('"' :: rest) (scan ('"' :: rest)) := by
  rw [scan_quote]
  cases stringBody_scan [] 1 rest with
  | closed hText hSame hLexeme =>
      left
      rw [hLexeme, hSame]
      exact isLongest_string hText
  | @lineEnd text more rest c hText hLine hSame hLexeme =>
      right
      rw [hLexeme, hSame]
      have hStop := StringStop.lineEnd hLine rest
      refine
        { length_le := by simp; omega
          noToken := noToken_of_stop hText hStop
          text := ⟨_, rfl, ?_⟩ }
      have hTake :
          ('"' :: (text ++ '\\' :: c :: rest)).take
              (1 + text.length + 1) =
            '"' :: (text ++ ['\\']) := by
        have hSplit :
            '"' :: (text ++ '\\' :: c :: rest) =
              ('"' :: (text ++ ['\\'])) ++ c :: rest := by
          simp
        rw [hSplit]
        apply List.take_left'
        rw [List.length_cons, List.length_append,
          List.length_singleton]
        omega
      rw [hTake]
      exact .invalidEscape hText hLine
  | @unterminated text _ tail hText hStop hSame hLexeme =>
      right
      rw [hLexeme, hSame]
      have hAll :
          ('"' :: (text ++ tail)).length =
            1 + (text ++ tail).length := by
        rw [List.length_cons, Nat.add_comm]
      refine
        { length_le := Nat.le_of_eq hAll.symm
          noToken := noToken_of_stop hText hStop
          text := ⟨_, rfl, ?_⟩ }
      rw [List.take_of_length_le (Nat.le_of_eq hAll)]
      exact .unterminatedString hText hStop

end Lexeme

end FeSyntax
