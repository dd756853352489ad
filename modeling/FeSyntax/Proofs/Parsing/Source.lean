import FeSyntax.Cursor
import FeSyntax.Proofs.Lexing.LongestMatch
import FeSyntax.Proofs.Lexing.Tiling
import FeSyntax.Proofs.Parsing.Reads

/-
  This file connects the parser of a file with the source
  text that it reads: the parser runs on the significant
  tokens of the text, and all tokens of a text are proper.

  Key definitions include:
    * `significantTokens`
    * `significantKinds`

  Key theorems include:
    * `exists_tokenize_eq`
    * `ordered_significantTokens`
    * `Scanner.tokenText_of_mem_tokens`
    * `lexed_significantTokens`
    * `noErrors_of_significantTokens`
    * `SourceFile.parse_eq_ok_iff`
-/

namespace FeSyntax

/-
  The tokens of a text that the grammar sees: all but the
  comments and the end of the text.
-/
def significantTokens
    (source : String) : List Token :=
  (tokenize source).filter (fun t => t.IsSignificant)

/- The kinds of the significant tokens of a text. -/
def significantKinds
    (source : String) : List TokenKind :=
  (significantTokens source).map Token.kind

------------------------------------------------------------
-- Tokens Of A Text
------------------------------------------------------------

section Texts

variable {source : String}

/- The last token is the end, behind all bytes. -/
theorem exists_tokenize_eq
    (source : String) :
    ∃ tokens p,
      tokenize source = tokens ++ [Scanner.endToken p] ∧
      p.offset = source.utf8ByteSize ∧
      ∀ t ∈ tokens,
        t.kind ≠ .endOfText ∧ t.text ≠ "" ∧
          t.span.start < t.span.stop := by
  rcases (Scanner.ofString source).exists_endToken with
    ⟨tokens, p, hTokens, hOffset, hSome, -⟩
  refine ⟨tokens, p, hTokens, ?_, hSome⟩
  rw [hOffset]
  simp [Scanner.ofString, Place.start]

/- The token behind all others stands for the end. -/
theorem Cursor.kind_stopOf
    (source : String) :
    (stopOf (tokenize source)).kind = .endOfText := by
  rcases exists_tokenize_eq source with ⟨tokens, p, hAll, -⟩
  rw [stopOf, hAll, List.getLastD_concat]
  rfl

/- The end of a text stands behind all its bytes. -/
theorem Cursor.span_stop_stopOf
    (source : String) :
    (stopOf (tokenize source)).span.stop =
      source.utf8ByteSize := by
  rcases exists_tokenize_eq source with
    ⟨tokens, p, hAll, hOffset, -⟩
  rw [stopOf, hAll, List.getLastD_concat]
  exact hOffset

/- The tokens of a text tile it from its start. -/
theorem exists_tiling_tokenize
    (source : String) :
    ∃ gaps, Tiling source "" gaps (tokenize source) := by
  refine (Scanner.ofString source).exists_tiling rfl ?_
  rw [String.empty_append]
  exact String.ofList_toList.symm

theorem covers_of_mem_tokenize
    {t : Token}
    (hMem : t ∈ tokenize source) :
    t.Covers source := by
  rcases exists_tiling_tokenize source with ⟨gaps, hTiling⟩
  exact hTiling.covers t hMem

theorem mem_tokenize_of_mem_significantTokens
    {t : Token}
    (hMem : t ∈ significantTokens source) :
    t ∈ tokenize source ∧ t.IsSignificant := by
  rcases List.mem_filter.mp hMem with ⟨hToken, hGrammar⟩
  exact ⟨hToken, by simpa using hGrammar⟩

/- Every significant token stops before the next starts. -/
theorem ordered_significantTokens
    (source : String) :
    (significantTokens source).Pairwise fun t u =>
      t.span.stop ≤ u.span.start := by
  rcases exists_tiling_tokenize source with ⟨gaps, hTiling⟩
  exact hTiling.ordered.sublist List.filter_sublist

/- Every significant token has characters. -/
theorem start_lt_stop_of_mem_significantTokens
    {t : Token}
    (hMem : t ∈ significantTokens source) :
    t.span.start < t.span.stop := by
  rcases mem_tokenize_of_mem_significantTokens hMem with
    ⟨hToken, hSignificant⟩
  rcases exists_tokenize_eq source with
    ⟨tokens, p, hTokens, -, hSome⟩
  rw [hTokens] at hToken
  rcases List.mem_append.mp hToken with hToken | hLast
  · exact (hSome t hToken).2.2
  · rw [List.mem_singleton.mp hLast] at hSignificant
    exact absurd rfl hSignificant.2

end Texts

------------------------------------------------------------
-- Proper Tokens
------------------------------------------------------------

/- Every token that a scanner gives has a proper kind. -/
theorem Scanner.lexed_tokens
    (s : Scanner) :
    Lexed s.tokens := by
  refine tokens_induction (motive := fun _ ts => Lexed ts) s
    ?_ ?_
  · intro s hEnd t hMem
    rw [List.mem_singleton.mp hMem]
    exact TokenKind.isProper_of_word?_eq_none rfl
  · intro s hMore ih t hMem
    rcases List.mem_cons.mp hMem with rfl | hLater
    · rw [next_kind]
      exact Lexeme.isProper_scan _
    · exact ih t hLater

/- A token that is no error and not the end has a text. -/
theorem Scanner.tokenText_of_mem_tokens
    (s : Scanner)
    {t : Token}
    (hMem : t ∈ s.tokens)
    (hMore : t.kind ≠ .endOfText)
    (hProper : ∀ cause, t.kind ≠ .error cause) :
    Lexeme.TokenText t.text.toList t.kind := by
  revert hMem
  refine tokens_induction
    (motive := fun _ ts =>
      t ∈ ts → Lexeme.TokenText t.text.toList t.kind) s ?_ ?_
  · intro s hEnd hMem
    rw [List.mem_singleton.mp hMem] at hMore
    exact absurd rfl hMore
  · intro s hLeft ih hMem
    rcases List.mem_cons.mp hMem with rfl | hLater
    · rw [next_text, next_kind]
      rw [next_kind] at hProper
      rcases Lexeme.scan_cases hLeft with
        hLongest | hMalformed
      · exact hLongest.text
      · rcases hMalformed.text with ⟨cause, hError, -⟩
        exact absurd hError (hProper cause)
    · exact ih hLater

theorem lexed_significantTokens
    (source : String) :
    Lexed (significantTokens source) := by
  intro t hMem
  exact
    (Scanner.ofString source).lexed_tokens t
      (List.mem_of_mem_filter hMem)

/- A comment is no error, and neither is the end. -/
theorem Token.isSignificant_of_error
    {t : Token}
    {cause : LexError}
    (hKind : t.kind = .error cause) :
    t.IsSignificant := by
  simp [IsSignificant, hKind]

/- The grammar sees all errors. -/
theorem noErrors_of_significantTokens
    {source : String}
    (hNone : NoErrors (significantTokens source)) :
    NoErrors (tokenize source) := by
  intro t hMem cause hError
  have hSignificant := Token.isSignificant_of_error hError
  exact hNone t
    (List.mem_filter.mpr ⟨hMem, by simpa using hSignificant⟩)
    cause hError

------------------------------------------------------------
-- Files
------------------------------------------------------------

/-
  A text parses as a file if its significant tokens are
  definitions.  The comments and the span of the file are
  those of the text.
-/
theorem SourceFile.parse_eq_ok_iff
    {source : String}
    {limit : Nat}
    {f : SourceFile} :
    SourceFile.parse source limit = .ok f ↔
      ∃ rest,
        Parser.definitions limit
            (significantTokens source) =
          .done f.definitions rest ∧
        f.comments = Cursor.commentsOf (tokenize source) ∧
        f.span =
          ⟨0, (Cursor.stopOf (tokenize source)).span.stop,
            1, 1⟩ := by
  rcases f with ⟨definitions, comments, span⟩
  have hTokens :
      (Cursor.ofString source limit).rest =
        significantTokens source :=
    rfl
  have hLimit :
      (Cursor.ofString source limit).limit = limit :=
    rfl
  rw [SourceFile.parse, Cursor.sourceFile, Cursor.run,
    hTokens, hLimit]
  cases hRun :
      Parser.definitions limit
        (significantTokens source) with
  | done ds rest =>
      constructor
      · intro hParse
        cases hParse
        exact ⟨rest, rfl, rfl, rfl⟩
      · intro hParse
        rcases hParse with ⟨_, hDone, hComments, hSpan⟩
        cases hDone
        subst hComments hSpan
        rfl
  | stopped fault rest =>
      constructor
      · intro hParse
        cases hParse
      · intro hParse
        rcases hParse with ⟨_, hDone, -⟩
        cases hDone

end FeSyntax
