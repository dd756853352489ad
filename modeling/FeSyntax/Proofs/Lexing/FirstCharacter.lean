import FeSyntax.Proofs.Lexing.Runs

/-
  This file proves what the first character of a token says
  about it: the kinds of tokens start with different
  characters, so it settles the kind of text that follows,
  and a text is that of tokens of one kind only.

  Key definitions include:
    * `Lexeme.CommentTail`
    * `Lexeme.NumberText`

  Key theorems include:
    * `Lexeme.TokenText.head_cases`
    * `Lexeme.TokenText.kind_unique`
-/

namespace FeSyntax

namespace Lexeme

------------------------------------------------------------
-- What A First Character Tells
------------------------------------------------------------

/- A digit starts no word. -/
theorem not_startsWord_of_isDigit
    {c : Char}
    (hDigit : Text.IsDigit c) :
    ¬ StartsWord c := by
  intro hStart
  simp only [Text.IsDigit, StartsWord, Char.le_def,
    UInt32.le_iff_toNat_le] at hDigit hStart
  rcases hStart with hStart | hStart | rfl
  · have hLow : ('a'.val.toNat) = 97 := by decide
    have hHigh : ('9'.val.toNat) = 57 := by decide
    omega
  · have hLow : ('A'.val.toNat) = 65 := by decide
    have hHigh : ('9'.val.toNat) = 57 := by decide
    omega
  · exact absurd hDigit.2 (by decide)

/- The first character of a mark starts no other token. -/
theorem head_spelling
    {p : Punct}
    {c : Char}
    {text : List Char}
    (hSpell : p.spelling.toList = c :: text) :
    c ≠ '/' ∧ c ≠ '"' ∧
      ¬ Text.IsDigit c ∧ ¬ StartsWord c := by
  have hHead :
      ∃ d rest, p.spelling.toList = d :: rest ∧
        d ≠ '/' ∧ d ≠ '"' ∧
        ¬ Text.IsDigit d ∧ ¬ StartsWord d := by
    cases p <;> exact ⟨_, _, rfl, by decide⟩
  rcases hHead with ⟨d, rest, hEq, hNot⟩
  rw [hSpell] at hEq
  rw [(List.cons.inj hEq).1]
  exact hNot

/- Different marks are written differently. -/
theorem spelling_injective
    {p p' : Punct}
    (hSame : p.spelling.toList = p'.spelling.toList) :
    p = p' := by
  have hName : p.spelling = p'.spelling :=
    String.toList_injective hSame
  revert hName
  cases p <;> cases p' <;> decide

/- What stands behind the first slash of a comment. -/
def CommentTail
    (text : List Char) : Prop :=
  (∃ body,
    text = '/' :: body ∧ ∀ c ∈ body, ¬ EndsLine c) ∨
  (∃ body,
    text = '*' :: (body ++ ['*', '/']) ∧
      ¬ ['*', '/'] <:+: body ++ ['*'])

/- The texts of numbers of either radix. -/
def NumberText
    (text : List Char)
    (kind : TokenKind) : Prop :=
  (∃ digits suffix,
    text = digits ++ suffixText suffix ∧
      digits ≠ [] ∧
      (∀ d ∈ digits, Text.IsDigit d) ∧
      kind =
        .number (literalValue? (Text.digitsValue 10 digits))
          suffix) ∨
  (∃ digits suffix,
    text = '0' :: 'x' :: (digits ++ suffixText suffix) ∧
      digits ≠ [] ∧
      (∀ d ∈ digits, Text.IsHexDigit d) ∧
      kind =
        .number (literalValue? (Text.digitsValue 16 digits))
          suffix)

/- A token by its first character. -/
theorem TokenText.head_cases
    {c : Char}
    {text : List Char}
    {kind : TokenKind}
    (hText : TokenText (c :: text) kind) :
    (c = '/' ∧ CommentTail text ∧ kind = .comment) ∨
    (c = '"' ∧
      ∃ inner value,
        text = inner ++ ['"'] ∧ StringText inner value ∧
          kind = .string (String.ofList value)) ∨
    (Text.IsDigit c ∧ NumberText (c :: text) kind) ∨
    (StartsWord c ∧ (∀ d ∈ text, ContinuesWord d) ∧
      kind = .ofWord (String.ofList (c :: text))) ∨
    (∃ p : Punct,
      p.spelling.toList = c :: text ∧ kind = .punct p) := by
  generalize hWhole : c :: text = whole at hText
  cases hText with
  | lineComment hBody =>
      rcases List.cons.inj hWhole with ⟨rfl, rfl⟩
      exact Or.inl ⟨rfl, Or.inl ⟨_, rfl, hBody⟩, rfl⟩
  | blockComment hFirst =>
      rcases List.cons.inj hWhole with ⟨rfl, rfl⟩
      exact Or.inl ⟨rfl, Or.inr ⟨_, rfl, hFirst⟩, rfl⟩
  | string hInner =>
      rcases List.cons.inj hWhole with ⟨rfl, rfl⟩
      exact Or.inr (Or.inl ⟨rfl, _, _, rfl, hInner, rfl⟩)
  | @decimal digits suffix hSome hDigits =>
      right; right; left
      cases digits with
      | nil => exact absurd rfl hSome
      | cons d digits =>
          have hDigit := hDigits d (by simp)
          rw [← (List.cons.inj hWhole).1] at hDigit
          exact
            ⟨hDigit,
              Or.inl ⟨_, suffix, rfl, hSome, hDigits, rfl⟩⟩
  | hexadecimal suffix hSome hDigits =>
      right; right; left
      have hDigit : Text.IsDigit c := by
        rw [(List.cons.inj hWhole).1]
        decide
      exact
        ⟨hDigit,
          Or.inr ⟨_, suffix, rfl, hSome, hDigits, rfl⟩⟩
  | word hStart hRest =>
      right; right; right; left
      rcases List.cons.inj hWhole with ⟨rfl, rfl⟩
      exact ⟨hStart, hRest, rfl⟩
  | punct p =>
      right; right; right; right
      exact ⟨p, rfl, rfl⟩

/- A token that starts with a slash is a comment. -/
theorem TokenText.of_slash
    {text : List Char}
    {kind : TokenKind}
    (hText : TokenText ('/' :: text) kind) :
    CommentTail text ∧ kind = .comment := by
  rcases hText.head_cases with
    hText | hText | hText | hText | ⟨p, hSpell, _⟩
  · exact hText.2
  · exact absurd hText.1 (by decide)
  · exact absurd hText.1 (by decide)
  · exact absurd hText.1 (by decide)
  · exact absurd rfl (head_spelling hSpell).1

/- A token that starts with a quote is a string. -/
theorem TokenText.of_quote
    {text : List Char}
    {kind : TokenKind}
    (hText : TokenText ('"' :: text) kind) :
    ∃ inner value,
      text = inner ++ ['"'] ∧ StringText inner value ∧
        kind = .string (String.ofList value) := by
  rcases hText.head_cases with
    hText | hText | hText | hText | ⟨p, hSpell, _⟩
  · exact absurd hText.1 (by decide)
  · exact hText.2
  · exact absurd hText.1 (by decide)
  · exact absurd hText.1 (by decide)
  · exact absurd rfl (head_spelling hSpell).2.1

/- A token that starts with a digit is a number. -/
theorem TokenText.of_digit
    {c : Char}
    {text : List Char}
    {kind : TokenKind}
    (hDigit : Text.IsDigit c)
    (hText : TokenText (c :: text) kind) :
    NumberText (c :: text) kind := by
  rcases hText.head_cases with
    ⟨rfl, _⟩ | ⟨rfl, _⟩ | hText | hText | ⟨p, hSpell, _⟩
  · exact absurd hDigit (by decide)
  · exact absurd hDigit (by decide)
  · exact hText.2
  · exact absurd hText.1 (not_startsWord_of_isDigit hDigit)
  · exact absurd hDigit (head_spelling hSpell).2.2.1

/- A token that starts like a word is a word. -/
theorem TokenText.of_letter
    {c : Char}
    {text : List Char}
    {kind : TokenKind}
    (hStart : StartsWord c)
    (hText : TokenText (c :: text) kind) :
    (∀ d ∈ text, ContinuesWord d) ∧
      kind = .ofWord (String.ofList (c :: text)) := by
  rcases hText.head_cases with
    ⟨rfl, _⟩ | ⟨rfl, _⟩ | hText | hText | ⟨p, hSpell, _⟩
  · exact absurd hStart (by decide)
  · exact absurd hStart (by decide)
  · exact absurd hStart (not_startsWord_of_isDigit hText.1)
  · exact hText.2
  · exact absurd hStart (head_spelling hSpell).2.2.2

/- Any other token is a punctuation mark. -/
theorem TokenText.of_other
    {c : Char}
    {text : List Char}
    {kind : TokenKind}
    (hSlash : c ≠ '/')
    (hQuote : c ≠ '"')
    (hDigit : ¬ Text.IsDigit c)
    (hStart : ¬ StartsWord c)
    (hText : TokenText (c :: text) kind) :
    ∃ p : Punct,
      p.spelling.toList = c :: text ∧ kind = .punct p := by
  rcases hText.head_cases with
    hText | hText | hText | hText | hText
  · exact absurd hText.1 hSlash
  · exact absurd hText.1 hQuote
  · exact absurd hText.1 hDigit
  · exact absurd hText.1 hStart
  · exact hText

------------------------------------------------------------
-- One Kind For A Text
------------------------------------------------------------

/-
  In front of the mark of a hexadecimal number the only
  decimal number is the zero of that mark.
-/
theorem decimal_before_mark
    {digits body : List Char}
    {suffix : Option IntSuffix}
    (hSome : digits ≠ [])
    (hDigits : ∀ d ∈ digits, Text.IsDigit d)
    (hPrefix :
      digits ++ suffixText suffix <+: '0' :: 'x' :: body) :
    digits ++ suffixText suffix = ['0'] := by
  cases digits with
  | nil => exact absurd rfl hSome
  | cons d digits =>
      rw [List.cons_append,
        List.cons_prefix_cons] at hPrefix
      rcases hPrefix with ⟨rfl, hTail⟩
      cases digits with
      | nil =>
          rcases suffixText_eq suffix with
            hNone | ⟨tail, hLetter⟩
          · simp [hNone]
          · rw [hLetter, List.nil_append,
              List.cons_prefix_cons] at hTail
            exact absurd hTail.1 (by decide)
      | cons e digits =>
          rw [List.cons_append,
            List.cons_prefix_cons] at hTail
          have hDigit := hDigits e (by simp)
          rw [hTail.1] at hDigit
          exact absurd hDigit (by decide)

/- A number has one value and one suffix. -/
theorem NumberText.kind_unique
    {text : List Char}
    {kind kind' : TokenKind}
    (hText : NumberText text kind)
    (hText' : NumberText text kind') :
    kind = kind' := by
  rcases hText with
    ⟨digits, suffix, rfl, hSome, hDigits, rfl⟩ |
    ⟨digits, suffix, rfl, hSome, hDigits, rfl⟩
  · rcases hText' with
      ⟨digits', suffix', hSame, _, hDigits', rfl⟩ |
      ⟨digits', suffix', hSame, _, _, rfl⟩
    · rcases digits_unique (p := fun d => Text.IsDigit d)
          (by decide) (by simpa using hDigits)
          (by simpa using hDigits') hSame with
        ⟨rfl, rfl⟩
      rfl
    · have hZero := decimal_before_mark hSome hDigits
        ⟨[], by rw [List.append_nil, hSame]⟩
      rw [hZero] at hSame
      simp at hSame
  · rcases hText' with
      ⟨digits', suffix', hSame, hSome', hDigits', rfl⟩ |
      ⟨digits', suffix', hSame, _, hDigits', rfl⟩
    · have hZero := decimal_before_mark hSome' hDigits'
        ⟨[], by rw [List.append_nil, hSame]⟩
      rw [hZero] at hSame
      simp at hSame
    · simp only [List.cons.injEq, true_and] at hSame
      rcases digits_unique (p := fun d => Text.IsHexDigit d)
          (by decide) (by simpa using hDigits)
          (by simpa using hDigits') hSame with
        ⟨rfl, rfl⟩
      rfl

/- A text is that of tokens of one kind. -/
theorem TokenText.kind_unique
    {text : List Char}
    {kind kind' : TokenKind}
    (hText : TokenText text kind)
    (hText' : TokenText text kind') :
    kind = kind' := by
  cases text with
  | nil => exact absurd rfl hText.ne_nil
  | cons c text =>
      rcases hText.head_cases with
        ⟨rfl, _, hKind⟩ |
        ⟨rfl, inner, value, rfl, hInner, hKind⟩ |
        ⟨hDigit, hNumber⟩ |
        ⟨hStart, _, hKind⟩ |
        ⟨p, hSpell, hKind⟩
      · rw [hKind, hText'.of_slash.2]
      · rcases hText'.of_quote with
          ⟨inner', value', hSame, hInner', hKind'⟩
        rcases hInner.unique hInner' (.closed [])
            (.closed []) hSame with
          ⟨_, rfl, _⟩
        rw [hKind, hKind']
      · exact hNumber.kind_unique (hText'.of_digit hDigit)
      · rw [hKind, (hText'.of_letter hStart).2]
      · rcases head_spelling hSpell with
          ⟨hSlash, hQuote, hDigit, hStart⟩
        rcases hText'.of_other hSlash hQuote hDigit hStart
          with ⟨p', hSpell', hKind'⟩
        have hMark : p = p' :=
          spelling_injective (hSpell.trans hSpell'.symm)
        rw [hKind, hKind', hMark]

end Lexeme

end FeSyntax
