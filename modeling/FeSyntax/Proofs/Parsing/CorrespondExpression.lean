import FeSyntax.Proofs.Parsing.CorrespondTy

/-
  This file proves that the parsers of expressions, blocks
  and what they contain do the same on tokens that are the
  same up to payloads.

  Key theorems include:
    * `Parser.matchOf_corresponds`
    * `Parser.blockOf_corresponds`
    * `Parser.expression_corresponds`
    * `Parser.block_corresponds`
-/

namespace FeSyntax

variable {r : Renaming}
variable {s s' : Span}

------------------------------------------------------------
-- Trees That Are Alike
------------------------------------------------------------

instance : Shaped Expression :=
  ⟨Expression.rename, Expression.mapSpans .forget⟩

instance : Shaped Block :=
  ⟨Block.rename, Block.mapSpans .forget⟩

instance : Shaped Statement :=
  ⟨Statement.rename, Statement.mapSpans .forget⟩

instance : Shaped LetBinding :=
  ⟨LetBinding.rename, LetBinding.mapSpans .forget⟩

instance : Shaped Match :=
  ⟨Match.rename, Match.mapSpans .forget⟩

instance : Shaped MatchArm :=
  ⟨MatchArm.rename, MatchArm.mapSpans .forget⟩

namespace Expression

/-
  An expression that is a literal is as alike as the
  literal.
-/
theorem alike_literal
    {l m : Literal}
    (hLiteral : Alike r l m) :
    Alike r (literal l) (literal m) :=
  congrArg literal hLiteral

/- An expression that is a path is as alike as the path. -/
theorem alike_path
    {p q : Path}
    (hPath : Alike r p q) :
    Alike r (path p) (path q) :=
  congrArg path hPath

/-
  An expression that is a block is as alike as the block.
-/
theorem alike_block
    {b c : Block}
    (hBlock : Alike r b c) :
    Alike r (block b) (block c) :=
  congrArg block hBlock

/-
  An expression that is a match is as alike as the match.
-/
theorem alike_matching
    {m n : Match}
    (hMatch : Alike r m n) :
    Alike r (matching m) (matching n) :=
  congrArg matching hMatch

end Expression

/-
  Blocks are alike if their statements and their last
  expressions are.
-/
theorem Block.alike
    {ss ss' : List Statement}
    {tail tail' : Option Expression}
    (hStatements : Alike r ss ss')
    (hTail : Alike r tail tail') :
    Alike r (mk ss tail s) (mk ss' tail' s') := by
  simpa [Alike, Shaped.shape, Shaped.rename, rename,
    mapSpans, Span.forget] using And.intro hStatements hTail

namespace Statement

/-
  A statement that is a binding is as alike as the binding.
-/
theorem alike_binding
    {b c : LetBinding}
    (hBinding : Alike r b c) :
    Alike r (binding b) (binding c) :=
  congrArg binding hBinding

/-
  Expressions with a semicolon are as alike as without it.
-/
theorem alike_expression
    {e e' : Expression}
    (hValue : Alike r e e') :
    Alike r (expression e s) (expression e' s') :=
  congrArg (fun e => expression e ⟨0, 0, 0, 0⟩) hValue

end Statement

/- Bindings are alike if all their parts are. -/
theorem LetBinding.alike
    {b b' : Bool}
    {i j : Identifier}
    {ty ty' : Option Ty}
    {e e' : Option Expression}
    (hMut : b' = b)
    (hName : Alike r i j)
    (hTy : Alike r ty ty')
    (hValue : Alike r e e') :
    Alike r (mk b i ty e s) (mk b' j ty' e' s') := by
  simpa [Alike, Shaped.shape, Shaped.rename, rename,
    mapSpans, Span.forget, hMut]
    using And.intro hName (And.intro hTy hValue)

/- Matches are alike if their subjects and arms are. -/
theorem Match.alike
    {e e' : Expression}
    {arms arms' : List MatchArm}
    (hValue : Alike r e e')
    (hArms : Alike r arms arms') :
    Alike r (mk e arms s) (mk e' arms' s') := by
  simpa [Alike, Shaped.shape, Shaped.rename, rename,
    mapSpans, Span.forget] using And.intro hValue hArms

/- Arms are alike if their patterns and bodies are. -/
theorem MatchArm.alike
    {p p' : Pattern}
    {e e' : Expression}
    (hPattern : Alike r p p')
    (hValue : Alike r e e') :
    Alike r (mk p e s) (mk p' e' s') := by
  simpa [Alike, Shaped.shape, Shaped.rename, rename,
    mapSpans, Span.forget] using And.intro hPattern hValue

------------------------------------------------------------
-- Expressions And Blocks
------------------------------------------------------------

namespace Parser

section Expressions

variable {n : Nat}
variable {inner : Parser Expression}
variable {innerBlock : Parser Block}
variable {innerTy : Parser Ty}
variable {innerPattern : Parser Pattern}
variable (hInner : inner.Corresponds r inner)
variable (hBlock : innerBlock.Corresponds r innerBlock)
variable (hTy : innerTy.Corresponds r innerTy)
variable (hPattern : innerPattern.Corresponds r innerPattern)
variable (hPasses : inner.Passes 1 (n - 1))
variable (hTyPasses : innerTy.Passes 1 n)
variable (hPatternPasses : innerPattern.Passes 1 n)

/- A match is passed in the same places, arm by arm. -/
include hInner hPattern hPasses hPatternPasses in
theorem matchOf_corresponds :
    (matchOf inner innerPattern).Corresponds r
      (matchOf inner innerPattern) := by
  have hArm :
      (matchArm inner innerPattern).Corresponds r
        (matchArm inner innerPattern) :=
    hPattern.bind fun _ _ hLeft =>
      .bind (.punct _) fun _ _ _ =>
        hInner.bind fun _ _ hRight =>
          .bind (.punct? _) fun _ _ _ =>
            .pure (MatchArm.alike hLeft hRight)
  refine .bind (.keyword _) fun _ _ _ =>
    hInner.bind fun _ _ hValue =>
      .bind (.punct _) fun _ _ _ =>
        .bind
          (.itemsUntil hArm
            (matchArm_passes hPasses hPatternPasses) _) ?_
  rintro ⟨arms, s⟩ ⟨arms', s'⟩ hPair
  exact .pure (Match.alike hValue (alike_pair.mp hPair).1)

/-
  A binding has a type or a value in both texts or in
  neither.
-/
include hInner hTy in
theorem letBinding_corresponds :
    (letBinding inner innerTy).Corresponds r
      (letBinding inner innerTy) := by
  have hColon :
      (do let _ ← punct .colon; innerTy).Corresponds r
        (do let _ ← punct .colon; innerTy) :=
    .bind (.punct _) fun _ _ _ => hTy
  have hEquals :
      (do let _ ← punct .equals; inner).Corresponds r
        (do let _ ← punct .equals; inner) :=
    .bind (.punct _) fun _ _ _ => hInner
  exact .bind (.keyword _) fun _ _ _ =>
    .bind (.keyword? _) fun _ _ hMut =>
      .bind identifier_corresponds fun _ _ hName =>
        .bind (.whenAt (fun _ => r.kind_eq_punct_iff) hColon)
          fun _ _ hType =>
            .bind
              (.whenAt (fun _ => r.kind_eq_punct_iff) hEquals)
              fun _ _ hValue =>
                .bind (.punct _) fun _ _ _ =>
                  .pure
                    (LetBinding.alike hMut.isSome_eq hName
                      hType hValue)

/-
  An expression in a block is a statement in both texts, or
  the last one in both.
-/
include hInner in
theorem expressionPart_corresponds :
    (expressionPart inner).Corresponds r
      (expressionPart inner) :=
  hInner.bind fun _ _ hValue =>
    .punct?_bind
      (.punct?_bind (.fail _) fun _ _ =>
        .pure
          (alike_inr.mpr
            (alike_pair.mpr
              ⟨alike_some.mpr hValue, alike_span _ _⟩)))
      fun _ _ =>
        .pure
          (alike_inl.mpr (Statement.alike_expression hValue))

/-
  The next token says in both texts whether a part of a
  block is a binding.
-/
include hInner hTy in
theorem blockPart_corresponds :
    (blockPart inner innerTy).Corresponds r
      (blockPart inner innerTy) := by
  have hPart := expressionPart_corresponds hInner
  have hLet := letBinding_corresponds hInner hTy
  refine .peek_bind hPart fun kind => ?_
  cases kind with
  | punct mark =>
      cases mark with
      | rightBrace =>
          exact .bind (.punct _) fun _ _ _ =>
            .pure
              (alike_inr.mpr
                (alike_pair.mpr
                  ⟨alike_none, alike_span _ _⟩))
      | _ => exact hPart
  | keyword k =>
      cases k with
      | letKw =>
          exact hLet.map fun _ _ hBinding =>
            alike_inl.mpr (Statement.alike_binding hBinding)
      | _ => exact hPart
  | _ => exact hPart

/- A block is passed in the same places, part by part. -/
include hInner hTy hPasses hTyPasses in
theorem blockOf_corresponds :
    (blockOf inner innerTy).Corresponds r
      (blockOf inner innerTy) := by
  refine .bind (.punct _) fun _ _ _ =>
    .bind
      (.collect (blockPart_corresponds hInner hTy)
        (.blockPart hPasses hTyPasses)) ?_
  rintro ⟨ss, tail, s⟩ ⟨ss', tail', s'⟩ hParts
  rcases alike_pair.mp hParts with ⟨hStatements, hEnd⟩
  exact .pure
    (Block.alike hStatements (alike_pair.mp hEnd).1)

/-
  The next token leads expressions the same way, and
  keywords stay what they are.
-/
include hInner hBlock hPattern hPasses hPatternPasses in
theorem expressionOf_corresponds :
    (expressionOf inner innerBlock innerPattern).Corresponds
      r (expressionOf inner innerBlock innerPattern) := by
  have hMatch :=
    matchOf_corresponds hInner hPattern hPasses
      hPatternPasses
  have hOther :
      ∀ kind : TokenKind,
        (if kind.literal?.isSome then
            Expression.literal <$> literal .expression
          else if kind.word?.isSome then
            Expression.path <$> path
          else fail (.expected .expression)).Corresponds r
        (if (r.kind kind).literal?.isSome then
            Expression.literal <$> literal .expression
          else if (r.kind kind).word?.isSome then
            Expression.path <$> path
          else fail (.expected .expression)) := by
    intro kind
    rw [r.isSome_word?_kind, r.literal?_kind,
      Option.isSome_map]
    split
    · exact (literal_corresponds _).map fun _ _ =>
        Expression.alike_literal
    · split
      · exact path_corresponds.map fun _ _ =>
          Expression.alike_path
      · exact .fail _
  refine .peek_bind (.fail _) fun kind => ?_
  cases kind with
  | punct mark =>
      cases mark with
      | leftBrace =>
          exact hBlock.map fun _ _ => Expression.alike_block
      | _ => exact hOther _
  | keyword k =>
      cases k with
      | matchKw =>
          exact hMatch.map fun _ _ =>
            Expression.alike_matching
      | _ => exact hOther _
  | _ => exact hOther _

end Expressions

------------------------------------------------------------
-- Levels
------------------------------------------------------------

/-
  Expressions and blocks correspond at every level, by one
  induction.
-/
theorem expression_corresponds_and_block_corresponds
    (n : Nat) :
    (expression n).Corresponds r (expression n) ∧
      (block n).Corresponds r (block n) := by
  induction n with
  | zero =>
      rw [expression, block]
      exact ⟨.fail _, .fail _⟩
  | succ n ih =>
      rcases ih with ⟨hExpression, hBlock⟩
      rw [expression, block]
      exact
        ⟨expressionOf_corresponds hExpression hBlock
            (pattern_corresponds n) (expression_passes n)
            (pattern_passes n),
          blockOf_corresponds hExpression (ty_corresponds n)
            (expression_passes n) (ty_passes n)⟩

theorem expression_corresponds
    (n : Nat) :
    (expression n).Corresponds r (expression n) :=
  (expression_corresponds_and_block_corresponds n).1

theorem block_corresponds
    (n : Nat) :
    (block n).Corresponds r (block n) :=
  (expression_corresponds_and_block_corresponds n).2

end Parser

end FeSyntax
