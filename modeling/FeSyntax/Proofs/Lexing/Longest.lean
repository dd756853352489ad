import FeSyntax.Proofs.Lexing.FirstCharacter

/-
  This file defines when a lexeme is the longest token in
  front of a text, and when it is the error where no prefix
  is a token.  The first character settles which of the
  scanners can apply.

  Key definitions include:
    * `Lexeme.IsLongest`
    * `Lexeme.IsMalformed`
-/

namespace FeSyntax

namespace Lexeme

------------------------------------------------------------
-- What A Scan Can Give
------------------------------------------------------------

/-
  A lexeme is the longest in front of a text when it is a
  token there and no prefix that is a token is longer.
-/
structure IsLongest
    (cs : List Char)
    (lexeme : Lexeme) : Prop where
  length_le : lexeme.length ≤ cs.length
  text : TokenText (cs.take lexeme.length) lexeme.kind
  longest :
    ∀ p kind, p <+: cs → TokenText p kind →
      p.length ≤ lexeme.length

/-
  A lexeme is the error in front of a text when no prefix is
  a token and the lexeme covers what is malformed.
-/
structure IsMalformed
    (cs : List Char)
    (lexeme : Lexeme) : Prop where
  length_le : lexeme.length ≤ cs.length
  noToken : ∀ p kind, p <+: cs → ¬ TokenText p kind
  text :
    ∃ cause, lexeme.kind = .error cause ∧
      MalformedText cs cause (cs.take lexeme.length)

/-
  A token at the very front of a text is the longest there
  if no token is longer.
-/
theorem IsLongest.of_append
    {text : List Char}
    {kind : TokenKind}
    (rest : List Char)
    (hText : TokenText text kind)
    (hLongest :
      ∀ p kind', p <+: text ++ rest → TokenText p kind' →
        p.length ≤ text.length) :
    IsLongest (text ++ rest) ⟨kind, text.length⟩ where
  length_le := by
    simp only [List.length_append]
    omega
  text := by simpa using hText
  longest := hLongest

/-
  A text has no token in front if its first character and
  what follows are in no token.
-/
theorem noToken_of_cons
    {c : Char}
    {rest : List Char}
    (hNone :
      ∀ p kind, p <+: rest → ¬ TokenText (c :: p) kind) :
    ∀ p kind, p <+: c :: rest → ¬ TokenText p kind := by
  intro p kind hPrefix hText
  rcases List.prefix_cons_iff.mp hPrefix with
    rfl | ⟨tail, rfl, hTail⟩
  · exact hText.ne_nil rfl
  · exact hNone tail kind hTail hText

/-
  No token is longer than a bound if none with the given
  first character is.
-/
theorem longest_of_cons
    {c : Char}
    {rest : List Char}
    {n : Nat}
    (hLongest :
      ∀ p kind, p <+: rest → TokenText (c :: p) kind →
        (c :: p).length ≤ n) :
    ∀ p kind, p <+: c :: rest → TokenText p kind →
      p.length ≤ n := by
  intro p kind hPrefix hText
  rcases List.prefix_cons_iff.mp hPrefix with
    rfl | ⟨tail, rfl, hTail⟩
  · exact Nat.zero_le n
  · exact hLongest tail kind hTail hText

------------------------------------------------------------
-- Scanners That Do Not Apply
------------------------------------------------------------

/- Comments start with a slash. -/
theorem comment?_eq_none
    {c : Char}
    (hSlash : c ≠ '/')
    (rest : List Char) :
    comment? (c :: rest) = none := by
  unfold comment?
  split
  · simp_all
  · simp_all
  · rfl

theorem string?_eq_none
    {c : Char}
    (hQuote : c ≠ '"')
    (rest : List Char) :
    string? (c :: rest) = none := by
  unfold string?
  split
  · simp_all
  · rfl

theorem number?_eq_none
    {c : Char}
    (hDigit : ¬ Text.IsDigit c)
    (rest : List Char) :
    number? (c :: rest) = none := by
  have hDecimal : decimal? (c :: rest) = none := by
    simp [decimal?, hDigit]
  unfold number?
  split
  · next hMark =>
      rw [(List.cons.inj hMark).1] at hDigit
      exact absurd (by decide) hDigit
  · exact hDecimal

/- Words start with a letter or an underscore. -/
theorem word?_eq_none
    {c : Char}
    (hStart : ¬ StartsWord c)
    (rest : List Char) :
    word? (c :: rest) = none := by
  simp [word?, hStart]

/- A text has no mark in front if no spelling is there. -/
theorem punct?_eq_none
    {cs : List Char}
    (hNone : ∀ p : Punct, ¬ p.spelling.toList <+: cs) :
    punct? cs = none := by
  simp only [punct?, Option.map_eq_none_iff,
    List.find?_eq_none]
  intro p _
  simpa using hNone p

/- A text that starts another token starts no mark. -/
theorem spelling_not_in_front
    {c : Char}
    (hOther :
      c = '/' ∨ c = '"' ∨ Text.IsDigit c ∨ StartsWord c)
    (rest : List Char)
    (p : Punct) :
    ¬ p.spelling.toList <+: c :: rest := by
  intro hPrefix
  cases hSpell : p.spelling.toList with
  | nil => cases p <;> exact absurd hSpell (by decide)
  | cons d tail =>
      rw [hSpell, List.cons_prefix_cons] at hPrefix
      rw [hPrefix.1] at hSpell
      rcases head_spelling hSpell with
        ⟨hSlash, hQuote, hDigit, hStart⟩
      rcases hOther with hOther | hOther | hOther | hOther
      · exact hSlash hOther
      · exact hQuote hOther
      · exact hDigit hOther
      · exact hStart hOther

end Lexeme

end FeSyntax
