import FeSyntax.Proofs.Parsing.CompleteTy

/-
  This file proves that the parsers of expressions and
  blocks are complete: every tree that fits into some levels
  is read back from each of its spellings with these levels.

  Key definitions include:
    * `EndsArm`

  Key theorems include:
    * `Parser.matchArm_complete`
    * `Parser.letBinding_complete`
    * `Parser.blockOf_complete`
    * `Parser.expression_complete`
    * `Parser.block_complete`
-/

namespace FeSyntax

/-
  What comes next does not make a path longer, and is no
  semicolon that would belong to an arm.
-/
def EndsArm
    (next : Option TokenKind) : Prop :=
  EndsPath next ∧ next ≠ some (.punct .semicolon)

namespace Parser

variable {n : Nat}
variable {ts rest : List Token}

section Expressions

variable {inner : Parser Expression}
variable {innerBlock : Parser Block}
variable {innerTy : Parser Ty}
variable {innerPattern : Parser Pattern}
variable
  (hInner :
    inner.Complete Expression.spellings (Expression.Fits n)
      EndsPath (Expression.mapSpans .forget))
  (hBlock :
    innerBlock.Complete Block.spellings (Block.Fits n)
      EndsAlways (Block.mapSpans .forget))
  (hTy :
    innerTy.Complete Ty.spellings (Ty.Fits n) EndsPath
      (Ty.mapSpans .forget))
  (hPattern :
    innerPattern.Complete Pattern.spellings (Pattern.Fits n)
      EndsPattern (Pattern.mapSpans .forget))

------------------------------------------------------------
-- Match And Let
------------------------------------------------------------

/-
  An arm is read back, with or without a semicolon behind
  it.
-/
include hInner hPattern in
theorem matchArm_complete :
    (matchArm inner innerPattern).Complete
      MatchArm.spellings (MatchArm.Fits n) EndsArm
      (MatchArm.mapSpans .forget) := by
  intro x ts rest hFits hReads hNext
  rcases x with ⟨pattern, value, span⟩
  rcases MatchArm.fits_mk.mp hFits with
    ⟨hFitsPattern, hFitsValue⟩
  simp only [MatchArm.spellings, mul_assoc,
    reads_mul_iff] at hReads
  rcases hReads with
    ⟨ts₁, hReadsPattern, ts₂, hReadsArrow, ts₃, hReadsValue,
     hReadsSemicolon⟩
  rcases punct_complete hReadsArrow with ⟨arrow, hArrow⟩
  rcases hPattern hFitsPattern hReadsPattern (by
      rw [nextKind_of_punct hArrow]
      simp [EndsPattern, EndsPath]) with
    ⟨pattern', hParsePattern, hSamePattern⟩
  have hSemicolon :
      EndsPath (nextKind ts₃) ∧
        ∃ o, punct? .semicolon ts₃ = .done o rest := by
    rcases reads_add_iff.mp hReadsSemicolon with
      hNone | hSome
    · have hEnd : ts₃ = rest := reads_one_iff.mp hNone
      subst hEnd
      exact
        ⟨hNext.1, none,
          punct?_eq_done.mpr (.inl ⟨hNext.2, rfl, rfl⟩)⟩
    · rcases punct_complete hSome with ⟨stop, hStop⟩
      exact
        ⟨EndsPath.of_punct hStop (by decide), some stop,
          punct?_eq_done.mpr (.inr ⟨stop, hStop, rfl⟩)⟩
  rcases hSemicolon with ⟨hEnds, o, hParseSemicolon⟩
  rcases hInner hFitsValue hReadsValue hEnds with
    ⟨value', hParseValue, hSameValue⟩
  let stop := o.getD value'.span
  refine
    ⟨⟨pattern', value', pattern'.span.through stop⟩, ?_, ?_⟩
  · simp only [matchArm, bind_eq_done, pure_eq_done]
    exact
      ⟨pattern', ts₁, hParsePattern, arrow, ts₂, hArrow,
        value', ts₃, hParseValue, o, rest, hParseSemicolon,
        rfl, rfl⟩
  · simp only [MatchArm.mapSpans, hSamePattern, hSameValue]
    rfl

/- A match is read back up to its closing brace. -/
include hInner hPattern in
theorem matchOf_complete :
    (matchOf inner innerPattern).Complete Match.spellings
      (Match.Fits n) EndsAlways
      (Match.mapSpans .forget) := by
  intro x ts rest hFits hReads _
  rcases x with ⟨value, arms, span⟩
  rcases Match.fits_mk.mp hFits with ⟨hFitsValue, hFitsArms⟩
  simp only [Match.spellings, Match.armSpellings_eq,
    mul_assoc] at hReads
  rcases reads_mul_iff.mp hReads with
    ⟨ts₁, hReadsMatch, hReads⟩
  rcases reads_mul_iff.mp hReads with
    ⟨ts₂, hReadsValue, hReads⟩
  rcases reads_mul_iff.mp hReads with
    ⟨ts₃, hReadsBrace, hReads⟩
  rcases keyword_complete hReadsMatch with ⟨start, hStart⟩
  rcases punct_complete hReadsBrace with ⟨brace, hBrace⟩
  have hEnds := EndsPath.of_punct hBrace (by decide)
  rcases hInner hFitsValue hReadsValue hEnds with
    ⟨value', hParseValue, hSameValue⟩
  have hFirst :
      ∀ kind : TokenKind, (∀ mark, kind ≠ .punct mark) →
        EndsArm (some kind) := by
    intro kind hKind
    exact
      ⟨fun hSame => hKind _ (Option.some.inj hSame),
        fun hSame => hKind _ (Option.some.inj hSame)⟩
  have hArm := matchArm_complete hInner hPattern
  rcases itemsUntil_complete hArm
      (fun a hFits => MatchArm.startsWith hFits.1)
      (fun hKind => hKind .rightBrace rfl) hFirst
      (by simp [EndsArm, EndsPath]) (x := (arms, span))
      hFitsArms hReads trivial with
    ⟨⟨arms', stop⟩, hParseArms, hSameArms⟩
  refine ⟨⟨value', arms', start.through stop⟩, ?_, ?_⟩
  · simp only [matchOf, bind_eq_done, pure_eq_done,
      Prod.exists]
    exact
      ⟨start, ts₁, hStart, value', ts₂, hParseValue, brace,
        ts₃, hBrace, arms', stop, rest, hParseArms, rfl,
        rfl⟩
  · simp only [Match.mapSpans, Match.mapArmSpans_eq,
      hSameValue]
    exact congrArg (Match.mk _ · _) hSameArms

/- A binding is read back up to its semicolon. -/
include hInner hTy in
theorem letBinding_complete :
    (letBinding inner innerTy).Complete LetBinding.spellings
      (LetBinding.Fits n) EndsAlways
      (LetBinding.mapSpans .forget) := by
  intro x ts rest hFits hReads _
  rcases x with ⟨isMut, name, ty, value, span⟩
  rcases LetBinding.fits_mk.mp hFits with
    ⟨hMut, hFitsTy, hFitsValue⟩
  simp only [LetBinding.spellings,
    Expression.optionSpellings_eq, mul_assoc,
    reads_mul_iff] at hReads
  rcases hReads with
    ⟨ts₁, hReadsLet, ts₂, hReadsMut, ts₃, hReadsName, ts₄,
     hReadsTy, ts₅, hReadsValue, hReadsStop⟩
  rcases keyword_complete hReadsLet with ⟨start, hStart⟩
  rcases punct_complete hReadsStop with ⟨stop, hStop⟩
  have hNextStop := nextKind_of_punct hStop
  have hNextName :
      isMut = false →
        nextKind ts₂ ≠ some (.keyword .mutKw) := by
    rw [ne_eq, Identifier.nextKind_keyword_iff hReadsName]
    exact hMut
  rcases keyword?_complete hReadsMut hNextName with
    ⟨o, hParseMut, rfl⟩
  rcases identifier_complete trivial hReadsName trivial with
    ⟨name', hParseName, hSameName⟩
  have hNextValue :
      EndsPath (nextKind ts₄) ∧
        nextKind ts₄ ≠ some (.punct .colon) := by
    rcases hReadsValue.nextKind_behind with hNext | hNext
    · rw [hNext]
      simp [EndsPath]
    · rw [hNext, hNextStop]
      simp [EndsPath]
  rcases whenAt_complete hTy hFitsTy hReadsTy hNextValue.1
      hNextValue.2 with
    ⟨ty', hParseTy, hSameTy⟩
  rcases whenAt_complete hInner hFitsValue hReadsValue
      (by rw [hNextStop]; simp [EndsPath])
      (by rw [hNextStop]; simp) with
    ⟨value', hParseValue, hSameValue⟩
  refine
    ⟨⟨o.isSome, name', ty', value', start.through stop⟩,
      ?_, ?_⟩
  · simp only [letBinding, bind_eq_done, pure_eq_done]
    exact
      ⟨start, ts₁, hStart, o, ts₂, hParseMut, name', ts₃,
        hParseName, ty', ts₄, hParseTy, value', ts₅,
        hParseValue, stop, rest, hStop, rfl, rfl⟩
  · simp only [LetBinding.mapSpans,
      Expression.mapOptionSpans_eq, hSameName, hSameTy,
      hSameValue]
    rfl

------------------------------------------------------------
-- Blocks
------------------------------------------------------------

include hInner hTy in
/- A statement is read back, and so are those behind it. -/
theorem blockPart_statement
    {x : Statement}
    (hFits : x.Fits n)
    (hReads : Reads ts x.spellings rest) :
    ∃ y, blockPart inner innerTy ts = .done (.inl y) rest ∧
      y.mapSpans .forget = x.mapSpans .forget := by
  cases x with
  | binding b =>
      have hFits := Statement.fits_binding.mp hFits
      rw [Statement.spellings] at hReads
      have hLet : nextKind ts = some (.keyword .letKw) := by
        rcases b with ⟨isMut, name, ty, value, span⟩
        simp only [LetBinding.spellings,
          mul_assoc] at hReads
        exact hReads.nextKind_eq
      rcases letBinding_complete hInner hTy hFits hReads
          trivial with
        ⟨b', hParse, hSame⟩
      refine ⟨.binding b', ?_, ?_⟩
      · exact blockPart_eq_done.mpr
          (.inr (.inl ⟨hLet, b', hParse, rfl⟩))
      · rw [Statement.mapSpans, Statement.mapSpans, hSame]
  | expression value span =>
      rcases Statement.fits_expression.mp hFits with
        ⟨hFits, hLet⟩
      rw [Statement.spellings] at hReads
      rcases reads_mul_iff.mp hReads with
        ⟨mid, hReads, hSemicolon⟩
      rcases punct_complete hSemicolon with ⟨stop, hStop⟩
      have hNotEnd :=
        Expression.nextKind_ne_rightBrace hReads hFits.1
      rw [Expression.beginsWith_let_iff hReads
        hFits.1] at hLet
      have hEnds := EndsPath.of_punct hStop (by decide)
      rcases hInner hFits hReads hEnds with
        ⟨value', hParse, hSame⟩
      have hPart :
          expressionPart inner ts = .done (.inl _) rest :=
        expressionPart_eq_done.mpr
          ⟨value', mid, hParse, .inl ⟨stop, hStop, rfl⟩⟩
      refine
        ⟨.expression value' (value'.span.through stop), ?_,
          ?_⟩
      · exact blockPart_eq_done.mpr
          (.inr (.inr ⟨hNotEnd, hLet, hPart⟩))
      · rw [Statement.mapSpans, Statement.mapSpans, hSame]
        rfl

include hInner in
/- The end of a block is read back. -/
theorem blockPart_end
    {tail : Option Expression}
    (hFits :
      ∀ e ∈ tail,
        e.Fits n ∧ ¬ e.BeginsWith Keyword.letKw.spelling)
    (hReads :
      Reads ts
        ((tail.map Expression.spellings).getD 1 *
          Punct.rightBrace.written)
        rest) :
    ∃ e : BlockEnd,
      blockPart inner innerTy ts = .done (.inr e) rest ∧
        e.1.map (Expression.mapSpans .forget) =
          tail.map (Expression.mapSpans .forget) := by
  rcases reads_mul_iff.mp hReads with ⟨mid, hReads, hBrace⟩
  rcases punct_complete hBrace with ⟨stop, hStop⟩
  cases tail with
  | none =>
      have hEnd : ts = mid := reads_one_iff.mp hReads
      subst hEnd
      exact
        ⟨(none, stop),
          blockPart_eq_done.mpr (.inl ⟨stop, hStop, rfl⟩),
          rfl⟩
  | some value =>
      rcases hFits value rfl with ⟨hFits, hLet⟩
      have hNotEnd :=
        Expression.nextKind_ne_rightBrace hReads hFits.1
      rw [Expression.beginsWith_let_iff hReads
        hFits.1] at hLet
      have hEnds := EndsPath.of_punct hStop (by decide)
      rcases hInner hFits hReads hEnds with
        ⟨value', hParse, hSame⟩
      have hNotSemicolon :
          nextKind mid ≠ some (.punct .semicolon) := by
        rw [nextKind_of_punct hStop]
        simp
      have hPart :
          expressionPart inner ts = .done (.inr _) rest :=
        expressionPart_eq_done.mpr
          ⟨value', mid, hParse,
            .inr ⟨hNotSemicolon, stop, hStop, rfl⟩⟩
      refine ⟨(some value', stop), ?_, congrArg some hSame⟩
      exact blockPart_eq_done.mpr
        (.inr (.inr ⟨hNotEnd, hLet, hPart⟩))

/- A block is read back part by part. -/
include hInner hTy in
theorem blockOf_complete :
    (blockOf inner innerTy).Complete Block.spellings
      (Block.Fits (n + 1)) EndsAlways
      (Block.mapSpans .forget) := by
  intro x ts rest hFits hReads _
  rcases x with ⟨statements, tail, span⟩
  rcases Block.fits_mk.mp hFits with ⟨hFitsAll, hFitsTail⟩
  simp only [Block.spellings, Block.statementSpellings_eq,
    Expression.optionSpellings_eq, mul_assoc] at hReads
  rcases reads_mul_iff.mp hReads with ⟨mid, hOpen, hReads⟩
  rcases punct_complete hOpen with ⟨start, hStart⟩
  rcases exists_steps
      (fun hFits hReads (_ : EndsAlways _) =>
        blockPart_statement hInner hTy hFits hReads)
      (fun hReads =>
        ⟨trivial, blockPart_end hInner hFitsTail hReads⟩)
      (fun s hFits => Statement.startsWith hFits.1)
      (fun _ _ => trivial) hFitsAll hReads with
    ⟨ys, ⟨tail', stop⟩, hSteps, hLength, hSame, hSameTail⟩
  refine ⟨⟨ys, tail', start.through stop⟩, ?_, ?_⟩
  · simp only [blockOf, bind_eq_done, pure_eq_done,
      Prod.exists]
    exact
      ⟨start, mid, hStart, ys, tail', stop, rest,
        collect_eq_done.mpr ⟨hLength, hSteps⟩, rfl, rfl⟩
  · simp only [Block.mapSpans, Block.mapStatementSpans_eq,
      Expression.mapOptionSpans_eq, hSame]
    exact congrArg (Block.mk _ · _) hSameTail

------------------------------------------------------------
-- Expressions
------------------------------------------------------------

/-
  Whichever form an expression has, its first token leads to
  that form.
-/
include hInner hBlock hPattern in
theorem expressionOf_complete :
    (expressionOf inner innerBlock innerPattern).Complete
      Expression.spellings (Expression.Fits (n + 1))
      EndsPath (Expression.mapSpans .forget) := by
  intro x ts rest hFits hReads hNext
  cases x with
  | literal l =>
      rw [Expression.spellings] at hReads
      rcases literal_complete trivial hReads trivial with
        ⟨y, hParse, hSame⟩
      rcases reads_written_iff.mp hReads with
        ⟨t, rfl, hKind⟩
      have hLiteral : t.kind.literal?.isSome := by
        rw [TokenKind.literal?_eq_some.mpr hKind]
        rfl
      refine ⟨.literal y, ?_, ?_⟩
      · exact expressionOf_eq_done.mpr
          (.inr (.inr (.inl
            ⟨t.kind, rfl, hLiteral, y, hParse, rfl⟩)))
      · rw [Expression.mapSpans, Expression.mapSpans, hSame]
  | path p =>
      have hPath := Expression.fits_path.mp hFits
      have hSegments := hPath.segments_ne_nil
      rw [Expression.spellings] at hReads
      rcases path_complete hSegments hReads hNext with
        ⟨y, hParse, hSame⟩
      rcases hReads.exists_nextKind
          (Path.startsWith hSegments) with
        ⟨_, hKind, word, -, rfl⟩
      rw [Path.isExpressionPath_iff hReads hSegments,
        hKind] at hPath
      rcases hPath with ⟨hBool, hMatch⟩
      refine ⟨.path y, ?_, ?_⟩
      · refine expressionOf_eq_done.mpr
          (.inr (.inr (.inr
            ⟨_, hKind, ?_, ?_, by simp, y, hParse, rfl⟩)))
        · exact fun hSame => hMatch (congrArg some hSame)
        · intro hLiteral
          rcases TokenKind.exists_bool_of_literal? hLiteral
            with ⟨b, hSame⟩
          exact hBool b (congrArg some hSame)
      · rw [Expression.mapSpans, Expression.mapSpans, hSame]
  | block b =>
      rw [Expression.spellings] at hReads
      rcases hBlock (Expression.fits_block.mp hFits) hReads
          trivial with
        ⟨b', hParse, hSame⟩
      refine ⟨.block b', ?_, ?_⟩
      · exact expressionOf_eq_done.mpr
          (.inl ⟨Block.nextKind hReads, b', hParse, rfl⟩)
      · rw [Expression.mapSpans, Expression.mapSpans, hSame]
  | matching m =>
      rw [Expression.spellings] at hReads
      rcases matchOf_complete hInner hPattern
          (Expression.fits_matching.mp hFits) hReads
          trivial with
        ⟨m', hParse, hSame⟩
      refine ⟨.matching m', ?_, ?_⟩
      · exact expressionOf_eq_done.mpr
          (.inr (.inl
            ⟨Match.nextKind hReads, m', hParse, rfl⟩))
      · rw [Expression.mapSpans, Expression.mapSpans, hSame]

end Expressions

/- Expressions and blocks contain each other. -/
theorem expression_complete_and_block_complete
    (n : Nat) :
    (expression n).Complete Expression.spellings
        (Expression.Fits n) EndsPath
        (Expression.mapSpans .forget) ∧
      (block n).Complete Block.spellings (Block.Fits n)
        EndsAlways (Block.mapSpans .forget) := by
  induction n with
  | zero =>
      constructor
      · intro x ts rest hFits
        exact absurd hFits x.not_fits_zero
      · intro x ts rest hFits
        exact absurd hFits x.not_fits_zero
  | succ n ih =>
      rcases ih with ⟨hExpression, hBlock⟩
      rw [expression, block]
      exact
        ⟨expressionOf_complete hExpression hBlock
            (pattern_complete n),
          blockOf_complete hExpression (ty_complete n)⟩

theorem expression_complete
    (n : Nat) :
    (expression n).Complete Expression.spellings
      (Expression.Fits n) EndsPath
      (Expression.mapSpans .forget) :=
  (expression_complete_and_block_complete n).1

theorem block_complete
    (n : Nat) :
    (block n).Complete Block.spellings (Block.Fits n)
      EndsAlways (Block.mapSpans .forget) :=
  (expression_complete_and_block_complete n).2

end Parser

end FeSyntax
