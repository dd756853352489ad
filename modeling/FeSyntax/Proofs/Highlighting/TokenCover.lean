import FeSyntax.Command.Render
import FeSyntax.Proofs.Parsing.Failure

/-
  This file proves that highlighting covers every token once
  and that all readers of a text agree about its invalid
  tokens.  Without an error among the tokens, highlights and
  records show each of them.  With one, both fail with the
  first error, and if the parser fails with a lexical error
  then it is that one as well.

  Key definitions include:
    * `FirstError`
    * `shownTokens`
    * `TokenKind.HasLabel`

  Key theorems include:
    * `noErrors_or_exists_firstError`
    * `TokenKind.hasLabel_label`
    * `RoleTable.exists_highlight_append`
    * `Token.records_append`
    * `SourceFile.firstError_of_parse`
    * `highlight_covers_tokens`
-/

namespace FeSyntax

------------------------------------------------------------
-- Errors Among Tokens
------------------------------------------------------------

/- The token is an error, and none in front of it is one. -/
def FirstError
    (ts : List Token)
    (t : Token)
    (cause : LexError) : Prop :=
  t.kind = .error cause ∧
    ∃ before behind,
      ts = before ++ t :: behind ∧ NoErrors before

/- The tokens of a text but for its end. -/
def shownTokens
    (source : String) : List Token :=
  (tokenize source).filter (fun t => t.kind ≠ .endOfText)

/- Where there are errors, one of them comes first. -/
theorem noErrors_or_exists_firstError
    (ts : List Token) :
    NoErrors ts ∨ ∃ t cause, FirstError ts t cause := by
  induction ts with
  | nil => exact .inl .nil
  | cons u ts ih =>
      by_cases hError : ∃ cause, u.kind = .error cause
      · rcases hError with ⟨cause, hError⟩
        exact .inr ⟨u, cause, hError, [], ts, rfl, .nil⟩
      have hProper : ∀ cause, u.kind ≠ .error cause :=
        fun cause hKind => hError ⟨cause, hKind⟩
      rcases ih with
        hNone | ⟨t, cause, hKind, before, behind, rfl, hNone⟩
      · exact .inl (hNone.cons hProper)
      · exact .inr
          ⟨t, cause, hKind, u :: before, behind, rfl,
            hNone.cons hProper⟩

theorem FirstError.of_significantTokens
    {source : String}
    {t : Token}
    {cause : LexError}
    (hFirst :
      FirstError (significantTokens source) t cause) :
    FirstError (tokenize source) t cause := by
  rcases hFirst with
    ⟨hError, before, behind, hTokens, hNone⟩
  rcases List.filter_eq_append_iff.mp hTokens with
    ⟨front, back, hSplit, rfl, hBack⟩
  rcases List.filter_eq_cons_iff.mp hBack with
    ⟨skipped, behind', rfl, hSkipped, -, -⟩
  refine
    ⟨hError, front ++ skipped, behind', ?_, ?_⟩
  · rw [hSplit, List.append_assoc]
  · intro u hMem cause' hKind
    have hSignificant := Token.isSignificant_of_error hKind
    rcases List.mem_append.mp hMem with hMem | hMem
    · exact hNone u
        (List.mem_filter.mpr
          ⟨hMem, by simpa using hSignificant⟩)
        cause' hKind
    · exact hSkipped u hMem (by simpa using hSignificant)

/- The end of the text is the last token only. -/
theorem tokenize_eq_shownTokens
    (source : String) :
    ∃ p, tokenize source =
      shownTokens source ++ [Scanner.endToken p] := by
  rcases exists_tokenize_eq source with
    ⟨tokens, p, hTokens, -, hMore⟩
  refine ⟨p, ?_⟩
  have hKept :
      tokens.filter (fun t => t.kind ≠ .endOfText) =
        tokens := by
    rw [List.filter_eq_self]
    intro t hMem
    simpa using (hMore t hMem).1
  have hEnd :
      [Scanner.endToken p].filter
          (fun t => t.kind ≠ .endOfText) =
        [] :=
    rfl
  rw [shownTokens, hTokens, List.filter_append, hKept, hEnd,
    List.append_nil]

/- No token that is shown stands for the end. -/
theorem ne_endOfText_of_mem_shownTokens
    {source : String}
    {t : Token}
    (hMem : t ∈ shownTokens source) :
    t.kind ≠ .endOfText := by
  have hShown := (List.mem_filter.mp hMem).2
  simpa using hShown

/- What comes before an error is not the end. -/
theorem FirstError.exists_prefix
    {source : String}
    {t : Token}
    {cause : LexError}
    (hFirst : FirstError (tokenize source) t cause) :
    ∃ before behind,
      tokenize source = before ++ t :: behind ∧
      NoErrors before ∧
      ∀ u ∈ before, u.kind ≠ .endOfText := by
  rcases hFirst with ⟨-, before, behind, hTokens, hNone⟩
  refine ⟨before, behind, hTokens, hNone, ?_⟩
  rcases tokenize_eq_shownTokens source with ⟨p, hShown⟩
  have hPrefix : before <+: shownTokens source := by
    have hDrop := congrArg List.dropLast hTokens
    rw [hShown, List.dropLast_concat,
      List.dropLast_append_of_ne_nil (by simp)] at hDrop
    exact ⟨_, hDrop.symm⟩
  intro u hMem
  exact ne_endOfText_of_mem_shownTokens (hPrefix.subset hMem)

------------------------------------------------------------
-- Labels
------------------------------------------------------------

namespace TokenKind

/-
  The label that a kind of token has in records.  A token
  that is an anonymous node is labelled by itself, and the
  others by the named nodes that they are.
-/
inductive HasLabel : TokenKind → String → Prop where
  | anonymous
      {kind : TokenKind}
      {k : String}
      (hNode : kind.nodeKind? = some k) :
      HasLabel kind k
  | identifier
      (name : String) :
      HasLabel (.identifier name) "identifier"
  | number
      (value : Option Nat)
      (suffix : Option IntSuffix) :
      HasLabel (.number value suffix) "number_literal"
  | string
      (value : String) :
      HasLabel (.string value) "string_literal"
  | comment :
      HasLabel .comment "comment"

/- All but errors and the end are labelled that way. -/
theorem hasLabel_label
    {kind : TokenKind}
    (hMore : kind ≠ .endOfText)
    (hProper : ∀ cause, kind ≠ .error cause) :
    kind.HasLabel kind.label := by
  cases kind with
  | keyword word => exact .anonymous rfl
  | primitive type => exact .anonymous rfl
  | bool value => exact .anonymous rfl
  | punct mark => exact .anonymous rfl
  | identifier name => exact .identifier name
  | number value suffix => exact .number value suffix
  | string value => exact .string value
  | comment => exact .comment
  | error cause => exact absurd rfl (hProper cause)
  | endOfText => exact absurd rfl hMore

end TokenKind

------------------------------------------------------------
-- Highlights And Records
------------------------------------------------------------

section Steps

variable {t : Token}
variable
  (hProper : ∀ cause, t.kind ≠ .error cause)
  (hMore : t.kind ≠ .endOfText)

include hProper hMore

/- A token that is neither error nor end is highlighted. -/
theorem RoleTable.exists_highlight_cons
    (table : RoleTable) :
    ∃ h : Highlight,
      h.token = t ∧
      ∀ ts,
        table.highlight (t :: ts) =
          (table.highlight ts).map (h :: ·) := by
  let byKind := t.kind.capture?.getD .anyName
  refine
    ⟨⟨t, table.captureOf t byKind⟩, rfl, fun ts => ?_⟩
  cases hKind : t.kind with
  | error cause => exact absurd hKind (hProper cause)
  | endOfText => exact absurd hKind hMore
  | _ =>
      simp only [RoleTable.highlight, byKind, hKind]
      rfl

/- The record of a token is put in front of the others. -/
theorem Token.records_cons
    (ts : List Token) :
    Token.records (t :: ts) =
      (Token.records ts).map
        (t.record t.kind.label :: ·) := by
  cases hKind : t.kind with
  | error cause => exact absurd hKind (hProper cause)
  | endOfText => exact absurd hKind hMore
  | _ => simp only [Token.records, hKind]

end Steps

section Prefixes

variable {before : List Token}
variable
  (hNone : NoErrors before)
  (hMore : ∀ t ∈ before, t.kind ≠ .endOfText)

include hNone hMore

/-
  Every token that is neither an error nor the end gets one
  highlight, whatever follows.
-/
theorem RoleTable.exists_highlight_append
    (table : RoleTable) :
    ∃ highlights,
      highlights.map Highlight.token = before ∧
      ∀ ts,
        table.highlight (before ++ ts) =
          (table.highlight ts).map (highlights ++ ·) := by
  induction before with
  | nil =>
      refine ⟨[], rfl, fun ts => ?_⟩
      rw [List.nil_append]
      cases table.highlight ts <;> rfl
  | cons t before ih =>
      rcases table.exists_highlight_cons
          (hNone t (.head _)) (hMore t (.head _)) with
        ⟨h, hToken, hStep⟩
      rcases ih
          (fun u hMem => hNone u (.tail _ hMem))
          (fun u hMem => hMore u (.tail _ hMem)) with
        ⟨highlights, hTokens, hAppend⟩
      refine ⟨h :: highlights, ?_, fun ts => ?_⟩
      · rw [List.map_cons, hToken, hTokens]
      · rw [List.cons_append, hStep, hAppend]
        cases table.highlight ts <;> rfl

/- The records of tokens without errors come first. -/
theorem Token.records_append
    (ts : List Token) :
    Token.records (before ++ ts) =
      (Token.records ts).map
        (before.map (fun t => t.record t.kind.label) ++
          ·) := by
  induction before with
  | nil =>
      rw [List.nil_append]
      cases Token.records ts <;> rfl
  | cons t before ih =>
      rw [List.cons_append,
        Token.records_cons (hNone t (.head _))
          (hMore t (.head _)),
        ih (fun u hMem => hNone u (.tail _ hMem))
          (fun u hMem => hMore u (.tail _ hMem))]
      cases Token.records ts <;> rfl

end Prefixes

/- At an error, both fail with it. -/
theorem RoleTable.highlight_of_error
    {t : Token}
    {cause : LexError}
    (table : RoleTable)
    (behind : List Token)
    (hError : t.kind = .error cause) :
    table.highlight (t :: behind) =
      .error
        (.invalidToken cause t.span.line t.span.column) := by
  rw [RoleTable.highlight, hError]

theorem Token.records_of_error
    {t : Token}
    {cause : LexError}
    (behind : List Token)
    (hError : t.kind = .error cause) :
    Token.records (t :: behind) =
      .error
        (.invalidToken cause t.span.line t.span.column) := by
  rw [Token.records, hError]

section Texts

variable {source : String}

/- Without errors, each token is highlighted and recorded. -/
theorem exists_highlight_of_noErrors
    (hNone : NoErrors (tokenize source)) :
    ∃ highlights,
      highlight source = .ok highlights ∧
      highlights.map Highlight.token = shownTokens source ∧
      Token.records (tokenize source) =
        .ok
          (highlights.map fun h =>
            h.token.record h.token.kind.label) := by
  rcases tokenize_eq_shownTokens source with ⟨p, hTokens⟩
  have hShown : NoErrors (shownTokens source) :=
    fun t hMem => hNone t (List.mem_of_mem_filter hMem)
  have hMore :
      ∀ t ∈ shownTokens source, t.kind ≠ .endOfText :=
    fun t => ne_endOfText_of_mem_shownTokens
  rcases (RoleTable.ofString source).exists_highlight_append
      hShown hMore with
    ⟨highlights, hSame, hAppend⟩
  have hMap :
      (highlights.map fun h =>
        h.token.record h.token.kind.label) =
        (shownTokens source).map
          (fun t => t.record t.kind.label) := by
    rw [← hSame, List.map_map]
    rfl
  refine ⟨highlights, ?_, hSame, ?_⟩
  · rw [highlight, hTokens, hAppend]
    simp [RoleTable.highlight, Scanner.endToken,
      TokenKind.capture?, Except.map]
  · rw [hTokens, Token.records_append hShown hMore, hMap]
    simp [Token.records, Scanner.endToken, Except.map]

/- Without errors, each token has a record with its label. -/
theorem Token.records_of_noErrors
    (hNone : NoErrors (tokenize source)) :
    Token.records (tokenize source) =
      .ok
        ((shownTokens source).map
          (fun t => t.record t.kind.label)) := by
  rcases exists_highlight_of_noErrors hNone with
    ⟨highlights, _, hShown, hRecords⟩
  rw [hRecords, ← hShown, List.map_map]
  rfl

/- With an error, both fail with the first one. -/
theorem highlight_of_firstError
    {t : Token}
    {cause : LexError}
    (hFirst : FirstError (tokenize source) t cause) :
    highlight source =
        .error
          (.invalidToken cause t.span.line t.span.column) ∧
      Token.records (tokenize source) =
        .error
          (.invalidToken cause t.span.line
            t.span.column) := by
  have hError := hFirst.1
  rcases hFirst.exists_prefix with
    ⟨before, behind, hTokens, hNone, hMore⟩
  rcases (RoleTable.ofString source).exists_highlight_append
      hNone hMore with
    ⟨highlights, -, hAppend⟩
  constructor
  · rw [highlight, hTokens, hAppend,
      RoleTable.highlight_of_error _ _ hError]
    rfl
  · rw [hTokens, Token.records_append hNone hMore,
      Token.records_of_error _ hError]
    rfl

end Texts

------------------------------------------------------------
-- Errors That The Parser Meets
------------------------------------------------------------

/- A fault that is shown as an invalid token stands at it. -/
theorem SyntaxError.kind_of_ofFault
    {fault : Fault}
    {t : Token}
    {n line column : Nat}
    {cause : LexError}
    (hError :
      SyntaxError.ofFault n fault t =
        .invalidToken cause line column) :
    t.kind = .error cause ∧ t.span.line = line ∧
      t.span.column = column := by
  cases fault with
  | tooDeep => cases hError
  | expected what =>
      rw [SyntaxError.ofFault] at hError
      cases hKind : t.kind <;> simp_all

namespace SourceFile

variable {source : String}
variable {limit : Nat}

/-
  A lexical error that the parser fails with is the first
  one of the text: no error was passed on the way to it.
-/
theorem firstError_of_parse
    {cause : LexError}
    {line column : Nat}
    (hParse :
      SourceFile.parse source limit =
        .error (.invalidToken cause line column)) :
    ∃ t, FirstError (tokenize source) t cause ∧
      t.span.line = line ∧ t.span.column = column := by
  rcases exists_failsAt hParse with ⟨index, hFails⟩
  rcases failsAt_iff.mp hFails with
    ⟨-, fault, hRun, hError⟩
  rcases SyntaxError.kind_of_ofFault hError.symm with
    ⟨hKind, hLine, hColumn⟩
  refine ⟨stopAt source index, ?_, hLine, hColumn⟩
  rcases (Parser.definitions_passes limit).stopped hRun with
    ⟨_, ⟨used, hTokens, -, hNone⟩, -⟩
  cases hRest : (significantTokens source).drop index with
  | nil =>
      -- The end of the text is no error.
      rw [stopAt, hRest, List.headD_nil,
        Cursor.kind_stopOf] at hKind
      cases hKind
  | cons t behind =>
      rw [stopAt, hRest, List.headD_cons] at hKind ⊢
      rw [hRest] at hTokens
      exact FirstError.of_significantTokens
        ⟨hKind, used, behind, hTokens, hNone⟩

end SourceFile

------------------------------------------------------------
-- Main Result
------------------------------------------------------------

/-
  All readers of a text agree about its invalid tokens.  If
  there is none, the highlights show every token but the end
  once and in order, and the records show the same tokens:
  a record is the place, the label and the text of a token.
  If there is one, both fail with the first of them.  A text
  that parses has none, and a lexical error of the parser is
  the error that highlighting fails with.
-/
theorem highlight_covers_tokens
    (source : String)
    (s : Session) :
    (NoErrors (tokenize source) →
      ∃ highlights,
        highlight source = .ok highlights ∧
        highlights.map Highlight.token =
          shownTokens source ∧
        (∀ h ∈ highlights,
          h.token.kind.HasLabel h.token.kind.label) ∧
        s.render .tokens source =
          .ok
            ("\n".intercalate
              (highlights.map fun h =>
                toString h.token.span.line ++ ":" ++
                  toString h.token.span.column ++ "\t" ++
                  h.token.kind.label ++ "\t" ++
                  h.token.text))) ∧
    (¬ NoErrors (tokenize source) →
      ∃ t cause,
        FirstError (tokenize source) t cause ∧
        highlight source =
          .error
            (.invalidToken cause t.span.line
              t.span.column) ∧
        s.render .tokens source =
          .error
            (.invalidToken cause t.span.line
              t.span.column)) ∧
    (∀ limit f,
      SourceFile.parse source limit = .ok f →
      NoErrors (tokenize source)) ∧
    ∀ limit cause line column,
      SourceFile.parse source limit =
        .error (.invalidToken cause line column) →
      highlight source =
        .error (.invalidToken cause line column) := by
  refine ⟨?_, ?_, ?_, ?_⟩
  · intro hNone
    rcases exists_highlight_of_noErrors hNone with
      ⟨highlights, hOk, hTokens, hRecords⟩
    refine ⟨highlights, hOk, hTokens, ?_, ?_⟩
    · intro h hMem
      have hShown : h.token ∈ shownTokens source := by
        rw [← hTokens]
        exact List.mem_map_of_mem hMem
      exact
        TokenKind.hasLabel_label
          (ne_endOfText_of_mem_shownTokens hShown)
          (hNone _ (List.mem_of_mem_filter hShown))
    · rw [Session.render, hRecords]
      rfl
  · intro hSome
    rcases noErrors_or_exists_firstError
        (tokenize source) with
      hNone | ⟨t, cause, hFirst⟩
    · exact absurd hNone hSome
    rcases highlight_of_firstError hFirst with
      ⟨hHighlight, hRecords⟩
    refine ⟨t, cause, hFirst, hHighlight, ?_⟩
    rw [Session.render, hRecords]
    rfl
  · intro limit f hParse
    exact SourceFile.noErrors_of_parse hParse
  · intro limit cause line column hParse
    rcases SourceFile.firstError_of_parse hParse with
      ⟨t, hFirst, rfl, rfl⟩
    exact (highlight_of_firstError hFirst).1

/- A text that parses, with a comment on its second line. -/
def commentBelow : String :=
  "struct S;\n// end"

/- A text with two invalid tokens on its second line. -/
def errorsBelow : String :=
  "struct\n @ #"

/-
  A comment below a struct does not keep it from parsing.
-/
theorem exists_parse_commentBelow :
    ∃ f,
      SourceFile.parse commentBelow defaultLimit = .ok f := by
  have hOk :
      (SourceFile.parse commentBelow defaultLimit).isOk =
        true := by
    decide +kernel
  cases hParse :
      SourceFile.parse commentBelow defaultLimit with
  | ok f => exact ⟨f, rfl⟩
  | error e =>
      rw [hParse] at hOk
      cases hOk

theorem parse_errorsBelow :
    SourceFile.parse errorsBelow defaultLimit =
      .error
        (.invalidToken (.unexpectedCharacter '@') 2 2) := by
  have hError :
      (SourceFile.parse errorsBelow defaultLimit).map
          SourceFile.comments =
        .error
          (.invalidToken (.unexpectedCharacter '@') 2 2) := by
    decide +kernel
  cases hParse :
      SourceFile.parse errorsBelow defaultLimit with
  | ok f =>
      rw [hParse] at hError
      cases hError
  | error e =>
      rw [hParse] at hError
      rw [Except.error.inj hError]

theorem highlight_covers_tokens_below :
    (∃ f,
      SourceFile.parse commentBelow defaultLimit = .ok f) ∧
    (∃ highlights,
      highlight commentBelow = .ok highlights ∧
      (highlights.map fun h =>
          (h.token.text, h.token.span.line,
            h.token.span.column)) =
        [("struct", 1, 1), ("S", 1, 8), (";", 1, 9),
          ("// end", 2, 1)]) ∧
    Session.ready.render .tokens commentBelow =
      .ok
        ("1:1\tstruct\tstruct\n" ++
          "1:8\tidentifier\tS\n" ++
          "1:9\t;\t;\n" ++
          "2:1\tcomment\t// end") ∧
    (highlight errorsBelow).mapError SyntaxError.message =
      .error
        "Invalid token at 2:2: Unexpected character: @" ∧
    (Session.ready.render .tokens errorsBelow).mapError
        RunError.report =
      .error "2:2: Unexpected character: @" := by
  rcases exists_parse_commentBelow with ⟨f, hParse⟩
  rcases highlight_covers_tokens commentBelow .ready with
    ⟨hCovers, -, hProper, -⟩
  rcases hCovers (hProper _ f hParse) with
    ⟨highlights, hOk, hShown, -, hRender⟩
  rcases highlight_covers_tokens errorsBelow .ready with
    ⟨-, hFails, -, hLexical⟩
  have hHighlight := hLexical _ _ _ _ parse_errorsBelow
  refine
    ⟨⟨f, hParse⟩, ⟨highlights, hOk, ?_⟩, ?_, ?_, ?_⟩
  · have hPlaces :
        ((shownTokens commentBelow).map fun t =>
            (t.text, t.span.line, t.span.column)) =
          [("struct", 1, 1), ("S", 1, 8), (";", 1, 9),
            ("// end", 2, 1)] := by
      decide +kernel
    rw [← hPlaces, ← hShown, List.map_map]
    rfl
  · have hLines :
        "\n".intercalate
            ((shownTokens commentBelow).map fun t =>
              t.record t.kind.label) =
          "1:1\tstruct\tstruct\n" ++
            "1:8\tidentifier\tS\n" ++
            "1:9\t;\t;\n" ++
            "2:1\tcomment\t// end" := by
      decide +kernel
    rw [hRender, ← hLines, ← hShown, List.map_map]
    rfl
  · rw [hHighlight]
    decide
  · have hSome : ¬ NoErrors (tokenize errorsBelow) := by
      decide +kernel
    rcases hFails hSome with ⟨t, cause, -, hOther, hRender⟩
    rw [hHighlight] at hOther
    rcases SyntaxError.invalidToken.inj
        (Except.error.inj hOther) with
      ⟨rfl, hLine, hColumn⟩
    rw [hRender, ← hLine, ← hColumn]
    decide

end FeSyntax
