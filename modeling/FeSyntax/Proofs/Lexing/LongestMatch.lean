import FeSyntax.Proofs.Lexing.Delimited
import FeSyntax.Proofs.Lexing.Greedy
import FeSyntax.Proofs.Lexing.Word

/-
  This file proves that a scanner gives the longest token in
  front of what is left of its text, and an error exactly
  where no token is in front.

  Key definitions include:
    * `Lexeme.StartsToken`

  Key theorems include:
    * `Lexeme.scan_cases`
    * `Lexeme.isProper_scan`
    * `Scanner.next_longest_match`
-/

namespace FeSyntax

------------------------------------------------------------
-- One Scan
------------------------------------------------------------

namespace Lexeme

/-
  A scan gives the longest token in front of a text, or the
  error if no token is in front.
-/
theorem scan_cases
    {cs : List Char}
    (hSome : cs ≠ []) :
    IsLongest cs (scan cs) ∨ IsMalformed cs (scan cs) := by
  cases cs with
  | nil => exact absurd rfl hSome
  | cons c rest =>
      by_cases hSlash : c = '/'
      · subst hSlash
        exact scan_slash_cases rest
      by_cases hQuote : c = '"'
      · subst hQuote
        exact scan_quote_cases rest
      by_cases hDigit : Text.IsDigit c
      · exact Or.inl (isLongest_scan_digit hDigit)
      by_cases hStart : StartsWord c
      · exact Or.inl (isLongest_scan_letter hStart)
      · exact scan_other_cases hSlash hQuote hDigit hStart

/- A scan reads no more than is left. -/
theorem length_scan_le
    (cs : List Char) :
    (scan cs).length ≤ cs.length := by
  cases cs with
  | nil => exact Nat.le_refl _
  | cons c rest =>
      rcases scan_cases (List.cons_ne_nil c rest) with
        hLongest | hMalformed
      · exact hLongest.length_le
      · exact hMalformed.length_le

/- A malformed text has at least one character. -/
theorem MalformedText.ne_nil
    {cs text : List Char}
    {cause : LexError}
    (hText : MalformedText cs cause text) :
    text ≠ [] := by
  cases hText <;> simp

/- A scan reads at least one character of those left. -/
theorem length_scan_pos
    {cs : List Char}
    (hSome : cs ≠ []) :
    0 < (scan cs).length := by
  apply Nat.pos_of_ne_zero
  intro hZero
  rcases scan_cases hSome with hLongest | hMalformed
  · have hText := hLongest.text
    rw [hZero, List.take_zero] at hText
    exact hText.ne_nil rfl
  · rcases hMalformed.text with ⟨cause, _, hText⟩
    rw [hZero, List.take_zero] at hText
    exact hText.ne_nil rfl

/- No word is the end of the text. -/
theorem ofWord_ne_endOfText
    (word : String) :
    TokenKind.ofWord word ≠ .endOfText := by
  intro hKind
  have hWord := TokenKind.word?_ofWord word
  rw [hKind] at hWord
  exact absurd hWord (by simp [TokenKind.word?])

/- No token with characters is the end of the text. -/
theorem TokenText.kind_ne_endOfText
    {text : List Char}
    {kind : TokenKind}
    (hText : TokenText text kind) :
    kind ≠ .endOfText := by
  cases hText with
  | word _ _ => exact ofWord_ne_endOfText _
  | _ => simp

/- The kind of a text of a token is proper. -/
theorem TokenText.isProper
    {text : List Char}
    {kind : TokenKind}
    (hText : TokenText text kind) :
    kind.IsProper := by
  cases hText with
  | word _ _ => exact TokenKind.isProper_ofWord _
  | _ => exact TokenKind.isProper_of_word?_eq_none rfl

/- What has characters is not scanned as the end. -/
theorem scan_kind_ne_endOfText
    {cs : List Char}
    (hSome : cs ≠ []) :
    (scan cs).kind ≠ .endOfText := by
  rcases scan_cases hSome with hLongest | hMalformed
  · exact hLongest.text.kind_ne_endOfText
  · rcases hMalformed.text with ⟨cause, hKind, _⟩
    rw [hKind]
    simp

/- Every kind that is scanned is proper. -/
theorem isProper_scan
    (cs : List Char) :
    (scan cs).kind.IsProper := by
  by_cases hSome : cs = []
  · subst hSome
    exact TokenKind.isProper_of_word?_eq_none rfl
  rcases scan_cases hSome with hLongest | hMalformed
  · exact hLongest.text.isProper
  · rcases hMalformed.text with ⟨cause, hKind, _⟩
    rw [hKind]
    exact TokenKind.isProper_of_word?_eq_none rfl

/- Whether a text has a token in front. -/
def StartsToken
    (cs : List Char) : Prop :=
  ∃ p kind, p ≠ [] ∧ p <+: cs ∧ TokenText p kind

end Lexeme

------------------------------------------------------------
-- One Step Of A Scanner
------------------------------------------------------------

namespace Scanner

/- Pass the characters in front of what is left. -/
theorem skip_of_append
    {s : Scanner}
    {front behind : List Char}
    (hRest : s.rest = front ++ behind) :
    s.skip front.length =
      ⟨behind, s.place.afterAll front⟩ := by
  unfold skip
  rw [hRest, List.drop_left, List.take_left]

/- All blanks in front are passed, and nothing else. -/
theorem skipBlanks_eq
    (s : Scanner) :
    s.skipBlanks =
      ⟨ s.rest.dropWhile (fun c => Text.IsBlank c),
        s.place.afterAll
          (s.rest.takeWhile (fun c => Text.IsBlank c)) ⟩ :=
  skip_of_append List.takeWhile_append_dropWhile.symm

theorem next_kind
    (s : Scanner) :
    s.next.1.kind = (Lexeme.scan s.skipBlanks.rest).kind :=
  rfl

/- The characters of the next token. -/
theorem next_text
    (s : Scanner) :
    s.next.1.text.toList =
      s.skipBlanks.rest.take
        (Lexeme.scan s.skipBlanks.rest).length := by
  exact String.toList_ofList

/-
  Before the end of its text, a scanner gives the longest
  token in front of what is left behind the blanks, with the
  one kind that its text has.  If there is no token in
  front, it gives the error that says so: up to the end of
  the text where a comment or a string is not closed, up to
  the backslash where a string escapes a line end, and else
  a single character.
-/
theorem next_longest_match
    (s : Scanner)
    (hMore :
      s.rest.dropWhile (fun c => Text.IsBlank c) ≠ []) :
    let rest := s.rest.dropWhile (fun c => Text.IsBlank c)
    let token := s.next.1
    (Lexeme.StartsToken rest →
      token.text.toList <+: rest ∧
      (∀ kind,
        Lexeme.TokenText token.text.toList kind ↔
          kind = token.kind) ∧
      ∀ p kind, p <+: rest → Lexeme.TokenText p kind →
        p.length ≤ token.text.toList.length) ∧
    (¬ Lexeme.StartsToken rest →
      ∃ cause, token.kind = .error cause ∧
        Lexeme.MalformedText rest cause
          token.text.toList) := by
  intro rest token
  have hRest : s.skipBlanks.rest = rest := by
    rw [skipBlanks_eq s]
  have hText :
      token.text.toList =
        rest.take (Lexeme.scan rest).length := by
    rw [← hRest]
    exact next_text s
  have hKind : token.kind = (Lexeme.scan rest).kind := by
    rw [← hRest]
    exact next_kind s
  rw [hText, hKind]
  rcases Lexeme.scan_cases hMore with hLongest | hMalformed
  · constructor
    · intro _
      refine ⟨List.take_prefix _ _, ?_, ?_⟩
      · intro kind
        constructor
        · intro hOther
          exact hOther.kind_unique hLongest.text
        · rintro rfl
          exact hLongest.text
      · intro p kind hPrefix hOther
        rw [List.length_take_of_le hLongest.length_le]
        exact hLongest.longest p kind hPrefix hOther
    · intro hNone
      exact absurd
        ⟨_, _, hLongest.text.ne_nil, List.take_prefix _ _,
          hLongest.text⟩ hNone
  · constructor
    · intro hToken
      rcases hToken with ⟨p, kind, _, hPrefix, hToken⟩
      have hNone := hMalformed.noToken p kind hPrefix
      exact absurd hToken hNone
    · intro _
      exact hMalformed.text

/- A number ends before digits that make no suffix. -/
theorem next_longest_match_number :
    let s := ofString " 1u86"
    s.rest.dropWhile (fun c => Text.IsBlank c) ≠ [] ∧
      Lexeme.StartsToken "1u86".toList ∧
      s.next.1.text = "1u8" ∧
      ∀ p kind, p <+: "1u86".toList →
        Lexeme.TokenText p kind → p.length ≤ 3 := by
  intro s
  have hMore :
      s.rest.dropWhile (fun c => Text.IsBlank c) ≠ [] := by
    decide
  have hToken : Lexeme.StartsToken "1u86".toList := by
    have hDigits : ∀ d ∈ ['1'], Text.IsDigit d := by
      intro d hMem
      rw [List.mem_singleton.mp hMem]
      decide
    have hOne :=
      Lexeme.TokenText.decimal none
        (List.cons_ne_nil '1' []) hDigits
    exact ⟨_, _, hOne.ne_nil, ⟨['u', '8', '6'], rfl⟩, hOne⟩
  have hText : s.next.1.text = "1u8" := by
    decide
  have hLength : s.next.1.text.toList.length = 3 := by
    rw [hText]
    rfl
  rcases (next_longest_match s hMore).1 hToken with
    ⟨_, _, hLongest⟩
  refine ⟨hMore, hToken, hText, ?_⟩
  intro p kind hPrefix hOther
  rw [← hLength]
  exact hLongest p kind hPrefix hOther

end Scanner

end FeSyntax
