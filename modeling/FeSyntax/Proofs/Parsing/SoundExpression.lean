import FeSyntax.Proofs.Parsing.SoundTy

/-
  This file proves that the parsers of expressions and
  blocks are sound: with some number of levels they give
  only trees that fit into these levels, and they read a
  spelling of the tree.

  Key definitions include:
    * `Parser.blockEndSpellings`
    * `Parser.BlockEndFits`

  Key theorems include:
    * `Parser.matchArm_sound`
    * `Parser.letBinding_sound`
    * `Parser.blockPart_sound`
    * `Parser.expression_sound`
    * `Parser.block_sound`
-/

namespace FeSyntax

namespace Parser

variable {n : Nat}
variable {ts rest : List Token}

------------------------------------------------------------
-- Match And Let
------------------------------------------------------------

section Expressions

variable {inner : Parser Expression}
variable {innerBlock : Parser Block}
variable {innerTy : Parser Ty}
variable {innerPattern : Parser Pattern}
variable
  (hInner :
    inner.Sound Expression.spellings (Expression.Fits n))
  (hBlock :
    innerBlock.Sound Block.spellings (Block.Fits n))
  (hTy : innerTy.Sound Ty.spellings (Ty.Fits n))
  (hPattern :
    innerPattern.Sound Pattern.spellings (Pattern.Fits n))

/- An arm has been read, with a semicolon or without. -/
include hInner hPattern in
theorem matchArm_sound :
    (matchArm inner innerPattern).Sound MatchArm.spellings
      (MatchArm.Fits n) := by
  intro ts rest a hLexed hParse
  simp only [matchArm, bind_eq_done, pure_eq_done] at hParse
  rcases hParse with
    ⟨pattern, ts₁, hParsePattern, arrow, ts₂, hArrow, value,
     ts₃, hValue, semicolon, _, hSemicolon, rfl, rfl⟩
  rcases hPattern hLexed hParsePattern with
    ⟨hReadsPattern, hFitsPattern⟩
  have hLead := hReadsPattern.mul (reads_of_punct hArrow)
  rcases hInner (hLead.lexed hLexed) hValue with
    ⟨hReadsValue, hFitsValue⟩
  refine
    ⟨?_, MatchArm.fits_mk.mpr ⟨hFitsPattern, hFitsValue⟩⟩
  rw [MatchArm.spellings]
  refine (hLead.mul hReadsValue).mul (reads_add_iff.mpr ?_)
  rcases reads_of_token? hSemicolon with
    ⟨hReadsSemicolon, -⟩
  cases semicolon with
  | none => exact .inl hReadsSemicolon
  | some stop => exact .inr hReadsSemicolon

/- A match has been read up to its brace. -/
include hInner hPattern in
theorem matchOf_sound :
    (matchOf inner innerPattern).Sound Match.spellings
      (Match.Fits n) := by
  intro ts rest m hLexed hParse
  simp only [matchOf, bind_eq_done, pure_eq_done,
    Prod.exists] at hParse
  rcases hParse with
    ⟨start, ts₁, hStart, value, ts₂, hValue, brace, ts₃,
     hBrace, arms, stop, _, hArms, rfl, rfl⟩
  have hMatch := reads_of_keyword hStart
  rcases hInner (hMatch.lexed hLexed) hValue with
    ⟨hReadsValue, hFitsValue⟩
  have hLead :=
    (hMatch.mul hReadsValue).mul (reads_of_punct hBrace)
  rcases itemsUntil_sound (matchArm_sound hInner hPattern)
      (hLead.lexed hLexed) hArms with
    ⟨hReads, hFits⟩
  refine ⟨?_, Match.fits_mk.mpr ⟨hFitsValue, hFits⟩⟩
  rw [Match.spellings, Match.armSpellings_eq, mul_assoc]
  exact hLead.mul hReads

/-
  A binding has been read; without `mut`, its name is
  another word.
-/
include hInner hTy in
theorem letBinding_sound :
    (letBinding inner innerTy).Sound LetBinding.spellings
      (LetBinding.Fits n) := by
  intro ts rest b hLexed hParse
  simp only [letBinding, bind_eq_done,
    pure_eq_done] at hParse
  rcases hParse with
    ⟨start, ts₁, hStart, mutable, ts₂, hMut, name, ts₃,
     hName, ty, ts₄, hParseTy, value, ts₅, hParseValue,
     stop, _, hStop, rfl, rfl⟩
  rcases reads_of_keyword? hMut with ⟨hReadsMut, hNext⟩
  have hLead := (reads_of_keyword hStart).mul hReadsMut
  rcases identifier_sound (hLead.lexed hLexed) hName with
    ⟨hReadsName, -⟩
  have hNamed := hLead.mul hReadsName
  rcases reads_of_whenAt hTy (hNamed.lexed hLexed) hParseTy
    with ⟨hReadsTy, hFitsTy⟩
  have hTyped := hNamed.mul hReadsTy
  rcases reads_of_whenAt hInner (hTyped.lexed hLexed)
      hParseValue with
    ⟨hReadsValue, hFitsValue⟩
  refine
    ⟨?_, LetBinding.fits_mk.mpr ⟨?_, hFitsTy, hFitsValue⟩⟩
  · rw [LetBinding.spellings, Expression.optionSpellings_eq]
    have hReads := hTyped.mul hReadsValue
    exact hReads.mul (reads_of_punct hStop)
  · intro hNotMut
    rw [ne_eq, ← Identifier.nextKind_keyword_iff hReadsName]
    exact hNext hNotMut

------------------------------------------------------------
-- Blocks
------------------------------------------------------------

/- How the end of a block is written. -/
def blockEndSpellings
    (e : BlockEnd) : Language TokenKind :=
  (e.1.map Expression.spellings).getD 1 *
    Punct.rightBrace.written

/- The value at the end of a block fits and is no `let`. -/
def BlockEndFits
    (n : Nat)
    (e : BlockEnd) : Prop :=
  ∀ value ∈ e.1,
    value.Fits n ∧
      ¬ value.BeginsWith Keyword.letKw.spelling

/-
  What does not start with `let` is no binding, and is read
  as an expression with its mark.
-/
include hInner in
theorem expressionPart_sound
    {part : Statement ⊕ BlockEnd}
    (hLexed : Lexed ts)
    (hLet : nextKind ts ≠ some (.keyword .letKw))
    (hParse : expressionPart inner ts = .done part rest) :
    Reads ts
        (Sum.elim Statement.spellings blockEndSpellings
          part)
        rest ∧
      Sum.elim (Statement.Fits n) (BlockEndFits n)
        part := by
  rcases expressionPart_eq_done.mp hParse with
    ⟨value, mid, hValue, hParse⟩
  rcases hInner hLexed hValue with ⟨hReads, hFits⟩
  have hNotLet :
      ¬ value.BeginsWith Keyword.letKw.spelling := by
    rw [Expression.beginsWith_let_iff hReads hFits.1]
    exact hLet
  rcases hParse with ⟨stop, hStop, rfl⟩ |
    ⟨-, stop, hStop, rfl⟩
  · refine
      ⟨?_, Statement.fits_expression.mpr ⟨hFits, hNotLet⟩⟩
    rw [Sum.elim_inl, Statement.spellings]
    exact hReads.mul (reads_of_punct hStop)
  · refine ⟨hReads.mul (reads_of_punct hStop), ?_⟩
    rintro _ ⟨⟩
    exact ⟨hFits, hNotLet⟩

/- A part of a block has been read, whichever it is. -/
include hInner hTy in
theorem blockPart_sound :
    (blockPart inner innerTy).Sound
      (Sum.elim Statement.spellings blockEndSpellings)
      (Sum.elim (Statement.Fits n) (BlockEndFits n)) := by
  intro ts rest part hLexed hParse
  rcases blockPart_eq_done.mp hParse with
    ⟨stop, hStop, rfl⟩ | ⟨-, b, hBinding, rfl⟩ |
    ⟨-, hLet, hParse⟩
  · refine ⟨?_, by rintro _ ⟨⟩⟩
    exact (Reads.refl ts).mul (reads_of_punct hStop)
  · rcases letBinding_sound hInner hTy hLexed hBinding with
      ⟨hReads, hFits⟩
    refine ⟨?_, Statement.fits_binding.mpr hFits⟩
    rwa [Sum.elim_inl, Statement.spellings]
  · exact expressionPart_sound hInner hLexed hLet hParse

/-
  A block has been read, and takes one level more than its
  parts.
-/
include hInner hTy in
theorem blockOf_sound :
    (blockOf inner innerTy).Sound Block.spellings
      (Block.Fits (n + 1)) := by
  intro ts rest b hLexed hParse
  simp only [blockOf, bind_eq_done, pure_eq_done,
    Prod.exists] at hParse
  rcases hParse with
    ⟨start, ts₁, hStart, statements, tail, stop, _, hParts,
     rfl, rfl⟩
  have hOpen := reads_of_punct hStart
  rcases collect_sound (blockPart_sound hInner hTy)
      (hOpen.lexed hLexed) hParts with
    ⟨hReads, hFits, hTail⟩
  refine ⟨?_, Block.fits_mk.mpr ⟨hFits, hTail⟩⟩
  simp only [Block.spellings, Block.statementSpellings_eq,
    Expression.optionSpellings_eq, mul_assoc]
  exact hOpen.mul hReads

------------------------------------------------------------
-- Expressions
------------------------------------------------------------

/-
  A path that is given starts like no other form, since that
  would have come first.
-/
include hInner hBlock hPattern in
theorem expressionOf_sound :
    (expressionOf inner innerBlock innerPattern).Sound
      Expression.spellings (Expression.Fits (n + 1)) := by
  intro ts rest e hLexed hParse
  rcases expressionOf_eq_done.mp hParse with
    ⟨-, b, hRun, rfl⟩ | ⟨-, m, hRun, rfl⟩ |
    ⟨kind, -, -, l, hRun, rfl⟩ |
    ⟨kind, hNext, hMatch, hNotLiteral, -, p, hRun, rfl⟩
  · rcases hBlock hLexed hRun with ⟨hReads, hFits⟩
    refine ⟨?_, Expression.fits_block.mpr hFits⟩
    rwa [Expression.spellings]
  · rcases matchOf_sound hInner hPattern hLexed hRun with
      ⟨hReads, hFits⟩
    refine ⟨?_, Expression.fits_matching.mpr hFits⟩
    rwa [Expression.spellings]
  · rcases literal_sound hLexed hRun with ⟨hReads, -⟩
    refine ⟨?_, Expression.fits_literal⟩
    rwa [Expression.spellings]
  · rcases path_sound hLexed hRun with ⟨hReads, hSegments⟩
    refine ⟨?_, Expression.fits_path.mpr ?_⟩
    · rwa [Expression.spellings]
    rw [Path.isExpressionPath_iff hReads hSegments, hNext]
    refine ⟨?_, fun hSame => hMatch (Option.some.inj hSame)⟩
    intro b hSame
    rw [Option.some.inj hSame] at hNotLiteral
    exact hNotLiteral rfl

end Expressions

/-
  Expressions and blocks fit into the levels they are given.
  A block inside an expression takes a level of its own, so
  both are proved together.
-/
theorem expression_sound_and_block_sound
    (n : Nat) :
    (expression n).Sound Expression.spellings
        (Expression.Fits n) ∧
      (block n).Sound Block.spellings (Block.Fits n) := by
  induction n with
  | zero =>
      constructor
      · intro ts rest e hLexed hParse
        rw [expression] at hParse
        exact absurd hParse fail_ne_done
      · intro ts rest b hLexed hParse
        rw [block] at hParse
        exact absurd hParse fail_ne_done
  | succ n ih =>
      rcases ih with ⟨hExpression, hBlock⟩
      rw [expression, block]
      exact
        ⟨expressionOf_sound hExpression hBlock
            (pattern_sound n),
          blockOf_sound hExpression (ty_sound n)⟩

theorem expression_sound
    (n : Nat) :
    (expression n).Sound Expression.spellings
      (Expression.Fits n) :=
  (expression_sound_and_block_sound n).1

theorem block_sound
    (n : Nat) :
    (block n).Sound Block.spellings (Block.Fits n) :=
  (expression_sound_and_block_sound n).2

end Parser

end FeSyntax
