import FeSyntax.Proofs.Lexing.LongestMatch
import Mathlib.Data.Bool.AllAny

/-
  This file proves where the longest match ends.  Only a
  comment or a string has blanks inside, and neither of them
  goes on behind its end, so a token that is longest in
  front of a text stays longest when the text is cut off or
  goes on with a blank that no token can pass.

  Key definitions include:
    * `Lexeme.Boundary`

  Key theorems include:
    * `Lexeme.TokenText.not_isBlank`
    * `Lexeme.TokenText.not_append_blank`
    * `Lexeme.IsLongest.scan_eq`
    * `Lexeme.IsLongest.before_blank`
    * `Lexeme.IsLongest.of_boundary`
-/

namespace FeSyntax

namespace Lexeme

------------------------------------------------------------
-- Blanks In Tokens
------------------------------------------------------------

/- No printable ASCII character is blank. -/
theorem not_isBlank_of_printable
    {c : Char}
    (hLow : '!'.toNat ≤ c.toNat)
    (hHigh : c.toNat ≤ '~'.toNat) :
    ¬ Text.IsBlank c := by
  have hFirst : '!'.toNat = 33 := by decide
  have hLast : '~'.toNat = 126 := by decide
  rw [hFirst] at hLow
  rw [hLast] at hHigh
  intro hBlank
  simp only [Text.IsBlank, Text.blankRanges,
    List.mem_cons, List.not_mem_nil, or_false,
    exists_eq_or_imp, exists_eq_left] at hBlank
  omega

/- The order of characters is that of their code points. -/
theorem not_isBlank_of_le
    {a c d : Char}
    (hLow : a ≤ c)
    (hHigh : c ≤ d)
    (hFirst : '!'.toNat ≤ a.toNat)
    (hLast : d.toNat ≤ '~'.toNat) :
    ¬ Text.IsBlank c :=
  not_isBlank_of_printable
    (Nat.le_trans hFirst (UInt32.le_iff_toNat_le.mp hLow))
    (Nat.le_trans (UInt32.le_iff_toNat_le.mp hHigh) hLast)

theorem not_isBlank_of_isDigit
    {c : Char}
    (hDigit : Text.IsDigit c) :
    ¬ Text.IsBlank c :=
  not_isBlank_of_le hDigit.1 hDigit.2 (by decide)
    (by decide)

theorem not_isBlank_of_continuesWord
    {c : Char}
    (hContinues : ContinuesWord c) :
    ¬ Text.IsBlank c := by
  rcases hContinues with
    (⟨hLow, hHigh⟩ | ⟨hLow, hHigh⟩ | rfl) | hDigit
  · exact not_isBlank_of_le hLow hHigh (by decide)
      (by decide)
  · exact not_isBlank_of_le hLow hHigh (by decide)
      (by decide)
  · decide
  · exact not_isBlank_of_isDigit hDigit

theorem not_isBlank_of_isHexDigit
    {c : Char}
    (hDigit : Text.IsHexDigit c) :
    ¬ Text.IsBlank c := by
  rcases hDigit with
    hDigit | ⟨hLow, hHigh⟩ | ⟨hLow, hHigh⟩
  · exact not_isBlank_of_isDigit hDigit
  · exact not_isBlank_of_le hLow hHigh (by decide)
      (by decide)
  · exact not_isBlank_of_le hLow hHigh (by decide)
      (by decide)

theorem not_isBlank_of_mem_suffixText
    {suffix : Option IntSuffix}
    {c : Char}
    (hMem : c ∈ suffixText suffix) :
    ¬ Text.IsBlank c := by
  have hNone :
      ∀ d ∈ suffixText suffix, ¬ Text.IsBlank d := by
    cases suffix with
    | none => exact nofun
    | some suffix =>
        cases suffix <;>
          exact List.all_iff_forall_prop.mp (by decide)
  exact hNone c hMem

/- Only a comment or a string can have blanks inside. -/
theorem TokenText.not_isBlank
    {c d : Char}
    {text : List Char}
    {kind : TokenKind}
    (hText : TokenText (c :: text) kind)
    (hSlash : c ≠ '/')
    (hQuote : c ≠ '"')
    (hMem : d ∈ c :: text) :
    ¬ Text.IsBlank d := by
  generalize hAll : c :: text = all at hText hMem
  cases hText with
  | lineComment hBody =>
      exact absurd (List.cons.inj hAll).1 hSlash
  | blockComment hFirst =>
      exact absurd (List.cons.inj hAll).1 hSlash
  | string hInner =>
      exact absurd (List.cons.inj hAll).1 hQuote
  | decimal suffix hSome hDigits =>
      rcases List.mem_append.mp hMem with hMem | hMem
      · exact not_isBlank_of_isDigit (hDigits d hMem)
      · exact not_isBlank_of_mem_suffixText hMem
  | hexadecimal suffix hSome hDigits =>
      simp only [List.mem_cons, List.mem_append] at hMem
      rcases hMem with rfl | rfl | hMem | hMem
      · decide
      · decide
      · exact not_isBlank_of_isHexDigit (hDigits d hMem)
      · exact not_isBlank_of_mem_suffixText hMem
  | word hStart hRest =>
      rcases List.mem_cons.mp hMem with rfl | hMem
      · exact not_isBlank_of_continuesWord (.inl hStart)
      · exact not_isBlank_of_continuesWord (hRest d hMem)
  | punct p =>
      have hNone :
          ∀ e ∈ p.spelling.toList, ¬ Text.IsBlank e := by
        cases p <;>
          exact List.all_iff_forall_prop.mp (by decide)
      exact hNone d hMem

/- No significant token starts with a blank. -/
theorem TokenText.head_not_isBlank
    {c : Char}
    {text : List Char}
    {kind : TokenKind}
    (hText : TokenText (c :: text) kind) :
    ¬ Text.IsBlank c := by
  by_cases hSlash : c = '/'
  · subst hSlash
    decide
  by_cases hQuote : c = '"'
  · subst hQuote
    decide
  · exact hText.not_isBlank hSlash hQuote List.mem_cons_self

------------------------------------------------------------
-- Tokens In Front Of Blanks
------------------------------------------------------------

/- What a string goes on with is not in the string. -/
theorem StringText.append_closed
    {inner value inner' value' more : List Char}
    (hText : StringText inner value)
    (hText' : StringText inner' value')
    (hSame : inner ++ '"' :: more = inner' ++ ['"']) :
    more = [] := by
  have hTail :=
    (hText.unique hText' (.closed more) (.closed [])
      hSame).2.2
  exact (List.cons.inj hTail).2

/-
  No comment goes on behind its end with a text that has a
  line end: a line comment has none inside, and a block
  comment ends at its first closing mark.
-/
theorem CommentTail.not_append_line
    {text more : List Char}
    {c : Char}
    (hText : CommentTail text)
    (hMem : c ∈ more)
    (hLine : EndsLine c) :
    ¬ CommentTail (text ++ more) := by
  intro hOther
  rcases hText with
    ⟨body, rfl, hBody⟩ | ⟨body, rfl, hFirst⟩ <;>
  rcases hOther with
    ⟨body', hSame, hBody'⟩ | ⟨body', hSame, hFirst'⟩
  · rcases List.cons.inj hSame with ⟨-, rfl⟩
    exact hBody' c (List.mem_append_right body hMem) hLine
  · exact absurd (List.cons.inj hSame).1 (by decide)
  · exact absurd (List.cons.inj hSame).1 (by decide)
  · have hRest :
        body ++ ['*', '/'] ++ more = body' ++ ['*', '/'] :=
      (List.cons.inj hSame).2
    have hLess := length_le_of_first_close ⟨more, hRest⟩
      (List.prefix_refl _) hFirst'
    have hLength := congrArg List.length hRest
    have hSome := List.length_pos_of_mem hMem
    simp only [List.length_append] at hLength
    omega

/-
  No token goes on behind another one with a text that has a
  blank: a string ends at its quote, and only comments have
  blanks elsewhere.  Behind a comment the blank has to be a
  line end.
-/
theorem TokenText.not_append_blank
    {text more : List Char}
    {kind kind' : TokenKind}
    {c : Char}
    (hText : TokenText text kind)
    (hMem : c ∈ more)
    (hBlank : Text.IsBlank c)
    (hLine : kind ≠ .comment ∨ EndsLine c) :
    ¬ TokenText (text ++ more) kind' := by
  intro hOther
  cases text with
  | nil => exact hText.ne_nil rfl
  | cons d text =>
      by_cases hSlash : d = '/'
      · subst hSlash
        rcases hLine with hKind | hLine
        · exact hKind hText.of_slash.2
        · exact hText.of_slash.1.not_append_line hMem hLine
            hOther.of_slash.1
      by_cases hQuote : d = '"'
      · subst hQuote
        rcases hText.of_quote with
          ⟨inner, value, rfl, hInner, -⟩
        rcases hOther.of_quote with
          ⟨inner', value', hSame, hInner', -⟩
        have hSplit :
            inner ++ '"' :: more = inner' ++ ['"'] := by
          simpa using hSame
        rw [hInner.append_closed hInner' hSplit] at hMem
        cases hMem
      · exact hOther.not_isBlank hSlash hQuote
          (List.mem_append_right (d :: text) hMem) hBlank

------------------------------------------------------------
-- Longest Matches In Other Places
------------------------------------------------------------

/-
  What may stand in the place of a text behind some tokens:
  nothing at all, or that text and a line feed behind it.
-/
inductive Boundary
    (rest : List Char) : List Char → Prop where
  | cut :
      Boundary rest []
  | lineFeed
      (more : List Char) :
      Boundary rest (rest ++ '\n' :: more)

namespace IsLongest

variable {text rest rest' : List Char}
variable {kind : TokenKind}

/- The token that is the longest in front of a text. -/
theorem tokenText
    (hLongest :
      IsLongest (text ++ rest) ⟨kind, text.length⟩) :
    TokenText text kind := by
  have hText := hLongest.text
  rw [List.take_left] at hText
  exact hText

/- A scan gives the token that is the longest. -/
theorem scan_eq
    (hLongest :
      IsLongest (text ++ rest) ⟨kind, text.length⟩) :
    scan (text ++ rest) = ⟨kind, text.length⟩ := by
  have hText := hLongest.tokenText
  have hPrefix : text <+: text ++ rest :=
    List.prefix_append _ _
  have hSome : text ++ rest ≠ [] := by
    intro hNil
    exact hText.ne_nil (List.append_eq_nil_iff.mp hNil).1
  rcases scan_cases hSome with hScan | hScan
  · have hLow := hScan.longest text kind hPrefix hText
    have hHigh := hLongest.longest _ _
      (List.take_prefix _ _) hScan.text
    rw [List.length_take_of_le hScan.length_le] at hHigh
    have hLength := Nat.le_antisymm hHigh hLow
    have hOther := hScan.text
    rw [hLength, List.take_left] at hOther
    have hSame := hOther.kind_unique hText
    rcases hRun : scan (text ++ rest) with ⟨k, n⟩
    rw [hRun] at hLength hSame
    simp only at hLength hSame
    rw [hLength, hSame]
  · exact absurd hText (hScan.noToken text kind hPrefix)

/-
  A token is the longest in front of a text if no longer one
  reaches over a blank of that text.
-/
theorem of_blank
    {c : Char}
    {between : List Char}
    (hText : TokenText text kind)
    (hBlank : Text.IsBlank c)
    (hLine : kind ≠ .comment ∨ EndsLine c)
    (hShort :
      ∀ p kind', p <+: text ++ between → TokenText p kind' →
        p.length ≤ text.length)
    (rest : List Char) :
    IsLongest (text ++ (between ++ c :: rest))
      ⟨kind, text.length⟩ := by
  refine .of_append _ hText fun p kind' hPrefix hOther => ?_
  have hFront :
      text ++ between <+: text ++ (between ++ c :: rest) :=
    ⟨c :: rest, List.append_assoc _ _ _⟩
  rcases Nat.lt_or_ge (text ++ between).length p.length with
    hLonger | hShorter
  · -- A longer token has the text and the blank in front.
    have hInside : text ++ (between ++ [c]) <+: p := by
      refine List.prefix_of_prefix_length_le
        ⟨rest, by simp⟩ hPrefix ?_
      simp only [List.length_append, List.length_cons,
        List.length_nil] at hLonger ⊢
      omega
    rcases hInside with ⟨more, rfl⟩
    rw [List.append_assoc] at hOther
    exact absurd hOther
      (hText.not_append_blank (by simp) hBlank hLine)
  · exact hShort p kind'
      (List.prefix_of_prefix_length_le hPrefix hFront
        hShorter) hOther

/- A token is the longest in front of a blank. -/
theorem before_blank
    {c : Char}
    (hText : TokenText text kind)
    (hBlank : Text.IsBlank c)
    (hLine : kind ≠ .comment ∨ EndsLine c)
    (rest : List Char) :
    IsLongest (text ++ c :: rest) ⟨kind, text.length⟩ := by
  have hShort :
      ∀ p kind', p <+: text ++ [] → TokenText p kind' →
        p.length ≤ text.length := by
    intro p kind' hPrefix _
    rw [List.append_nil] at hPrefix
    exact hPrefix.length_le
  exact of_blank hText hBlank hLine hShort rest

/-
  A longest token stays one when the text behind it is cut,
  or goes on with a line feed.
-/
theorem of_boundary
    {between : List Char}
    (hLongest :
      IsLongest (text ++ (between ++ rest))
        ⟨kind, text.length⟩)
    (hBoundary : Boundary rest rest') :
    IsLongest (text ++ (between ++ rest'))
      ⟨kind, text.length⟩ := by
  have hText := hLongest.tokenText
  cases hBoundary with
  | cut =>
      refine .of_append _ hText
        fun p kind' hPrefix hOther => ?_
      refine hLongest.longest p kind' (hPrefix.trans ?_)
        hOther
      rw [List.append_nil]
      exact ⟨rest, by simp⟩
  | lineFeed more =>
      rw [← List.append_assoc between]
      exact of_blank hText (by decide) (.inr (.inl rfl))
        hLongest.longest more

end IsLongest

end Lexeme

end FeSyntax
