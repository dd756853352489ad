import FeSyntax.Proofs.Lexing.Blanks
import FeSyntax.Proofs.Parsing.Source

/-
  This file proves that token kinds can be written down: for
  every list of kinds that tokens of a text can have, there
  is a text with exactly these significant tokens.  Each
  token is written with a blank behind it, which is where
  the longest match ends.

  Key definitions include:
    * `TokenKind.IsWritable`

  Key theorems include:
    * `Scanner.next_before_blank`
    * `exists_significantKinds_eq`
    * `isWritable_of_mem_significantTokens`
-/

namespace FeSyntax

/- Some text is a significant token of the kind. -/
def TokenKind.IsWritable
    (kind : TokenKind) : Prop :=
  kind ≠ .comment ∧ ∃ text, Lexeme.TokenText text kind

------------------------------------------------------------
-- Texts With Given Tokens
------------------------------------------------------------

namespace Scanner

/- A scanner at a token before a blank gives that token. -/
theorem next_before_blank
    {s : Scanner}
    {text rest : List Char}
    {kind : TokenKind}
    (hText : Lexeme.TokenText text kind)
    (hKind : kind ≠ .comment)
    (hStart : s.skipBlanks.rest = text ++ ' ' :: rest) :
    s.next.1.kind = kind ∧ s.next.2.rest = ' ' :: rest := by
  have hScan :=
    (Lexeme.IsLongest.before_blank hText
      (by decide : Text.IsBlank ' ') (.inl hKind)
      rest).scan_eq
  have hRest :
      s.next.2.rest =
        s.skipBlanks.rest.drop
          (Lexeme.scan s.skipBlanks.rest).length :=
    rfl
  rw [next_kind, hRest, hStart, hScan, List.drop_left]
  exact ⟨rfl, rfl⟩

end Scanner

/-
  For all kinds that tokens of a text can have there are
  characters that a scanner reads as tokens of these kinds,
  and none of them is blank in front.
-/
theorem exists_scanned_kinds
    {kinds : List TokenKind}
    (hKinds : ∀ kind ∈ kinds, kind.IsWritable) :
    ∃ cs : List Char,
      cs.dropWhile (fun c => Text.IsBlank c) = cs ∧
      ∀ s : Scanner, s.skipBlanks.rest = cs →
        (s.tokens.filter fun t => t.IsSignificant).map
            Token.kind =
          kinds := by
  induction kinds with
  | nil =>
      refine ⟨[], rfl, fun s hEnd => ?_⟩
      rw [Scanner.tokens_of_end hEnd]
      rfl
  | cons kind kinds ih =>
      rcases ih fun k hMem =>
          hKinds k (List.mem_cons_of_mem _ hMem) with
        ⟨cs, hBlank, hTokens⟩
      rcases hKinds kind List.mem_cons_self with
        ⟨hComment, text, hText⟩
      refine ⟨text ++ ' ' :: cs, ?_, fun s hStart => ?_⟩
      · cases text with
        | nil => exact absurd rfl hText.ne_nil
        | cons c text =>
            rw [List.cons_append, List.dropWhile_cons,
              if_neg (by simpa using hText.head_not_isBlank)]
      · rcases Scanner.next_before_blank hText hComment
            hStart with ⟨hKind, hRest⟩
        have hMore : s.skipBlanks.rest ≠ [] := by
          rw [hStart]
          simp
        have hNext : s.next.2.skipBlanks.rest = cs := by
          rw [Scanner.skipBlanks_eq, hRest]
          exact hBlank
        have hSignificant : s.next.1.IsSignificant := by
          rw [Token.IsSignificant, hKind]
          exact ⟨hComment, hText.kind_ne_endOfText⟩
        rw [Scanner.tokens_of_more hMore,
          List.filter_cons_of_pos (by simpa), List.map_cons,
          hKind, hTokens _ hNext]

/- So there is a source text with these kinds. -/
theorem exists_significantKinds_eq
    {kinds : List TokenKind}
    (hKinds : ∀ kind ∈ kinds, kind.IsWritable) :
    ∃ source, significantKinds source = kinds := by
  rcases exists_scanned_kinds hKinds with
    ⟨cs, hBlank, hTokens⟩
  refine ⟨String.ofList cs, hTokens _ ?_⟩
  rw [Scanner.skipBlanks_eq, Scanner.ofString,
    String.toList_ofList]
  exact hBlank

------------------------------------------------------------
-- Tokens That Were Read
------------------------------------------------------------

/- A significant token of a text is an error or writable. -/
theorem isWritable_of_mem_significantTokens
    {source : String}
    {t : Token}
    (hMem : t ∈ significantTokens source)
    (hProper : ∀ cause, t.kind ≠ .error cause) :
    t.kind.IsWritable := by
  rcases List.mem_filter.mp hMem with ⟨hToken, hGrammar⟩
  have hSignificant : t.IsSignificant := by
    simpa using hGrammar
  exact
    ⟨hSignificant.1, _,
      (Scanner.ofString source).tokenText_of_mem_tokens
        hToken hSignificant.2 hProper⟩

end FeSyntax
