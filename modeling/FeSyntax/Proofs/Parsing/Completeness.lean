import FeSyntax.Proofs.Parsing.CompleteDefinition
import FeSyntax.Proofs.Parsing.Soundness

/-
  This file proves that parsing a source text is complete,
  and that the grammar is unambiguous.  If the significant
  tokens of a text are a spelling of a file in which the
  keyword wins, the text parses as that file, provided that
  the levels of the file are allowed.  So no two files in
  which the keyword wins have a spelling in common.

  Key theorems include:
    * `SourceFile.definitions_of_mem_spellings`
    * `SourceFile.shape_unique`
    * `SourceFile.parse_complete_and_unambiguous`
-/

namespace FeSyntax

namespace SourceFile

/- Tokens that spell a file are parsed as that file. -/
theorem definitions_of_mem_spellings
    {f : SourceFile}
    {limit : Nat}
    {ts : List Token}
    (hFits : f.Fits limit)
    (hSpelled : ts.map Token.kind ∈ f.spellings) :
    ∃ ds, Parser.definitions limit ts = .done ds [] ∧
      ds.map (Definition.mapSpans .forget) =
        f.definitions.map (Definition.mapSpans .forget) :=
  Parser.definitions_complete (fits_iff.mp hFits)
    (reads_nil_iff.mpr hSpelled)

/- Two files with a spelling in common have one shape. -/
theorem shape_unique
    {f g : SourceFile}
    {kinds : List TokenKind}
    (hKeyword : f.KeywordWins)
    (hKeyword' : g.KeywordWins)
    (hSpelled : kinds ∈ f.spellings)
    (hSpelled' : kinds ∈ g.spellings) :
    f.shape = g.shape := by
  -- Some tokens of these kinds are parsed as both files.
  let ts : List Token :=
    kinds.map fun kind => ⟨kind, "", ⟨0, 0, 0, 0⟩⟩
  have hKinds : ts.map Token.kind = kinds := by
    simp [ts, Function.comp_def]
  rw [← hKinds] at hSpelled hSpelled'
  have hFits : f.Fits (max f.height g.height) :=
    ⟨hKeyword, Nat.le_max_left _ _⟩
  have hFits' : g.Fits (max f.height g.height) :=
    ⟨hKeyword', Nat.le_max_right _ _⟩
  rcases definitions_of_mem_spellings hFits hSpelled with
    ⟨ds, hParse, hSame⟩
  rcases definitions_of_mem_spellings hFits' hSpelled' with
    ⟨ds', hParse', hSame'⟩
  rw [hParse] at hParse'
  cases hParse'
  rw [shape, shape, ← hSame, ← hSame']
  rfl

/- A text that spells a file is parsed as that file. -/
theorem exists_parse
    {f : SourceFile}
    {source : String}
    {limit : Nat}
    (hKeyword : f.KeywordWins)
    (hSpelled : significantKinds source ∈ f.spellings)
    (hHeight : f.height ≤ limit) :
    ∃ g, SourceFile.parse source limit = .ok g ∧
      g.shape = f.shape := by
  have hFits : f.Fits limit := ⟨hKeyword, hHeight⟩
  rcases definitions_of_mem_spellings hFits hSpelled with
    ⟨ds, hParse, hSame⟩
  refine
    ⟨⟨ds, _, _⟩,
      parse_eq_ok_iff.mpr ⟨[], hParse, rfl, rfl⟩, ?_⟩
  rw [shape, shape, hSame]
  rfl

/-
  A text whose significant tokens are a spelling of a file
  in which the keyword wins parses as that file, up to spans
  and comments, whenever the limit is not below the height
  of the file.  Two such files with a spelling in common are
  the same up to spans and comments, and the texts that
  parse under some limit are those that spell such a file.
-/
theorem parse_complete_and_unambiguous :
    (∀ (f : SourceFile) (source : String) (limit : Nat),
      f.KeywordWins →
      significantKinds source ∈ f.spellings →
      f.height ≤ limit →
      ∃ g, SourceFile.parse source limit = .ok g ∧
        g.shape = f.shape) ∧
    (∀ (f g : SourceFile) (kinds : List TokenKind),
      f.KeywordWins →
      g.KeywordWins →
      kinds ∈ f.spellings →
      kinds ∈ g.spellings →
      f.shape = g.shape) ∧
    ∀ source : String,
      (∃ limit f, SourceFile.parse source limit = .ok f) ↔
        ∃ f : SourceFile, f.KeywordWins ∧
          significantKinds source ∈ f.spellings := by
  refine ⟨?_, ?_, ?_⟩
  · intro f source limit hKeyword hSpelled hHeight
    exact exists_parse hKeyword hSpelled hHeight
  · intro f g kinds hKeyword hKeyword' hSpelled hSpelled'
    exact shape_unique hKeyword hKeyword' hSpelled hSpelled'
  · intro source
    constructor
    · intro hText
      rcases hText with ⟨limit, f, hParse⟩
      rcases reads_of_parse hParse with
        ⟨hSpelled, hKeyword, -⟩
      exact ⟨f, hKeyword, hSpelled⟩
    · intro hText
      rcases hText with ⟨f, hKeyword, hSpelled⟩
      rcases exists_parse hKeyword hSpelled (Nat.le_refl _)
        with ⟨g, hParse, -⟩
      exact ⟨f.height, g, hParse⟩

/-
  A constant whose value is a match on a block.  Keywords
  are used as names, and the second arm has no semicolon.
-/
def matchOnBlock
    (span : Span) : SourceFile :=
  { definitions :=
      [.constant
        { isPub := false
          name := ⟨"mut", span⟩
          ty := .reference true
            (.path ⟨[⟨"let", span⟩], span⟩) span
          value := .matching
            ⟨.block ⟨[], none, span⟩,
              [ ⟨.wildcard span,
                  .path ⟨[⟨"mut", span⟩], span⟩, span⟩,
                ⟨.identifier ⟨"let", span⟩,
                  .literal ⟨.number (some 1) none, span⟩,
                  span⟩ ],
              span⟩
          span }]
    comments := []
    span }

/- A text that is read as that constant. -/
def matchOnBlockText : String :=
  "const mut: &mut let = match \x7b\x7d \x7b _ => mut; let => 1 \x7d;"

/-
  Wherever it stands, no name in the sample is taken for a
  keyword.
-/
theorem keywordWins_matchOnBlock
    (span : Span) :
    (matchOnBlock span).KeywordWins := by
  have hPattern :
      Path.IsPatternPath ⟨[⟨"let", span⟩], span⟩ := by
    refine ⟨by simp, ?_, by simp [Keyword.spelling]⟩
    intro b
    cases b <;> simp [TokenKind.boolSpelling]
  have hExpression :
      Path.IsExpressionPath ⟨[⟨"mut", span⟩], span⟩ := by
    refine ⟨by simp, ?_, by simp [Keyword.spelling]⟩
    intro b
    cases b <;> simp [TokenKind.boolSpelling]
  have hTy : Path.IsTypePath ⟨[⟨"let", span⟩], span⟩ := by
    refine ⟨by simp, ?_⟩
    intro kind
    cases kind <;> simp [Primitive.spelling]
  intro d hMem
  rw [List.mem_singleton.mp hMem]
  refine .constant
    ⟨.reference (by simp) (.path hTy),
      .matching (.mk ?_ ?_)⟩
  · exact .block (.mk (by simp) (by simp) (by simp))
  · intro a hArm
    simp only [List.mem_cons, List.not_mem_nil,
      or_false] at hArm
    rcases hArm with rfl | rfl
    · exact .mk .wildcard (.path hExpression)
    · exact .mk (.identifier hPattern) .literal

/- The kinds of the sample text spell the sample. -/
theorem matchOnBlockText_mem_spellings
    (span : Span) :
    significantKinds matchOnBlockText ∈
      (matchOnBlock span).spellings := by
  have hKinds :
      significantKinds matchOnBlockText =
        [ .keyword .constKw, .keyword .mutKw, .punct .colon,
          .punct .ampersand, .keyword .mutKw,
          .keyword .letKw, .punct .equals,
          .keyword .matchKw, .punct .leftBrace,
          .punct .rightBrace, .punct .leftBrace,
          .keyword .underscore, .punct .fatArrow,
          .keyword .mutKw, .punct .semicolon,
          .keyword .letKw, .punct .fatArrow,
          .number (some 1) none, .punct .rightBrace,
          .punct .semicolon ] := by
    decide +kernel
  have hMut := TokenKind.ofWord_keyword .mutKw
  have hLet := TokenKind.ofWord_keyword .letKw
  simp only [Keyword.spelling] at hMut hLet
  rw [hKinds]
  simp [matchOnBlock, spellings, Definition.spellings,
    Constant.spellings, Spelling.visibility,
    Spelling.present, Spelling.separated,
    Identifier.spellings, Path.spellings, Ty.spellings,
    Expression.spellings, Match.spellings, Block.spellings,
    MatchArm.spellings, Pattern.spellings,
    Literal.spellings, LiteralValue.kind, Keyword.written,
    Punct.written, TokenKind.cons_mem_written_mul_iff,
    TokenKind.mem_written_iff, Language.mem_add, mul_assoc,
    add_mul, hMut, hLet]

/- A match on a block, which is parsed from its text. -/
theorem parse_complete_and_unambiguous_matchOnBlock :
    (matchOnBlock ⟨0, 0, 1, 1⟩).KeywordWins ∧
    significantKinds matchOnBlockText ∈
      (matchOnBlock ⟨0, 0, 1, 1⟩).spellings ∧
    (matchOnBlock ⟨0, 0, 1, 1⟩).height ≤ 4 ∧
    (∃ g, SourceFile.parse matchOnBlockText 4 = .ok g ∧
      g.shape = (matchOnBlock ⟨0, 0, 1, 1⟩).shape) ∧
    (matchOnBlock ⟨0, 0, 1, 1⟩).shape =
      (matchOnBlock ⟨0, 54, 1, 1⟩).shape := by
  have hHeight :
      (matchOnBlock ⟨0, 0, 1, 1⟩).height ≤ 4 := by
    decide
  refine
    ⟨keywordWins_matchOnBlock _,
      matchOnBlockText_mem_spellings _, hHeight, ?_, ?_⟩
  · exact parse_complete_and_unambiguous.1 _ _ _
      (keywordWins_matchOnBlock _)
      (matchOnBlockText_mem_spellings _) hHeight
  · exact parse_complete_and_unambiguous.2.1 _ _ _
      (keywordWins_matchOnBlock _)
      (keywordWins_matchOnBlock _)
      (matchOnBlockText_mem_spellings _)
      (matchOnBlockText_mem_spellings _)

end SourceFile

end FeSyntax
