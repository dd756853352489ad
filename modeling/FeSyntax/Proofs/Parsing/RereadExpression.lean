import FeSyntax.Proofs.Parsing.Reread

/-
  This file proves that the nodes of types, patterns and
  expressions can be parsed again from their own tokens.

  Key theorems include:
    * `Parser.ty_gives`
    * `Parser.pattern_gives`
    * `Parser.expression_gives`
    * `Parser.block_gives`
-/

namespace FeSyntax

namespace Parser

variable {all : List Token}
variable {limit n : Nat}

------------------------------------------------------------
-- Types And Patterns
------------------------------------------------------------

/-
  The parts of a type are read again if the types inside it
  are.
-/
theorem tyOf_gives
    {inner : Parser Ty}
    (hInner :
      inner.Gives all fun t =>
        t.outline.ReadsAgain limit all) :
    (tyOf inner).Gives all fun t =>
      t.outline.PartsReadAgain limit all := by
  have hPath :
      (Ty.path <$> path).Gives all fun t =>
        t.outline.PartsReadAgain limit all :=
    .skipMap Uses.path fun p => by simp [Ty.outline]
  refine .peek_bind fun next => ?_
  cases next with
  | none => exact .fail _
  | some kind =>
      cases kind with
      | primitive p =>
          exact .skip Uses.accept fun part => .pure (by
            simp [Ty.outline, Outline.leaf])
      | punct mark =>
          cases mark with
          | ampersand =>
              exact .skip (Uses.punct _) fun _ =>
                .skip (Uses.keyword _).whenAt fun _ =>
                  hInner.bind fun t hTy => .pure (by
                    simpa [Ty.outline] using hTy)
          | leftParen =>
              exact .skip (Uses.punct _) fun _ =>
                hInner.commaList.bind fun parts hParts =>
                  .pure (by
                    simpa [Ty.outline] using hParts)
          | _ => exact .fail _
      | keyword k => exact hPath
      | identifier name => exact hPath
      | bool b => exact hPath
      | _ => exact .fail _

/-
  Types with at most the levels of the limit are read again,
  with all their parts.
-/
theorem ty_gives
    (hLevels : n ≤ limit) :
    (ty n).Gives all fun t =>
      t.outline.ReadsAgain limit all := by
  induction n with
  | zero => exact .fail _
  | succ n ih =>
      refine .root (tyOf_gives (ih (by omega)))
        fun ts rest t hPlace hDone => ?_
      have hAgain : (Node.ty t).ReadsAgain limit all :=
        readsAgain_of_done (fun r => ty_replays (n + 1))
          ((ty_uses (n + 1)).mono fun _ _ =>
            Ty.encloses_of_owns)
          (ty_deepens hLevels) hPlace hDone
      cases t <;> exact hAgain

/-
  The path of a named pattern needs no parser, and its
  elements are read again.
-/
theorem namedPattern_gives
    {inner : Parser Pattern}
    (hInner :
      inner.Gives all fun p =>
        p.outline.ReadsAgain limit all) :
    (namedPattern inner).Gives all fun p =>
      p.outline.PartsReadAgain limit all := by
  refine .skip Uses.path fun path =>
    .skip (Uses.punct _).whenAt fun opened => ?_
  cases opened with
  | some span =>
      refine hInner.commaList.bind fun parts hParts =>
        .pure ?_
      simpa [Pattern.outline] using hParts
  | none =>
      rcases path with ⟨_ | ⟨i, _ | ⟨j, is⟩⟩, s⟩
      · exact .fail _
      · exact .pure (by simp [Pattern.outline])
      · exact .fail _

/-
  The parts of a pattern are read again if the patterns
  inside it are.
-/
theorem patternOf_gives
    {inner : Parser Pattern}
    (hInner :
      inner.Gives all fun p =>
        p.outline.ReadsAgain limit all) :
    (patternOf inner).Gives all fun p =>
      p.outline.PartsReadAgain limit all := by
  have hNamed := namedPattern_gives hInner
  have hLiteral :
      (Pattern.literal <$> literal .pattern).Gives all
        fun p => p.outline.PartsReadAgain limit all :=
    .skipMap (Uses.literal _) fun l => by
      simp [Pattern.outline]
  refine .peek_bind fun next => ?_
  cases next with
  | none => exact .fail _
  | some kind =>
      cases kind with
      | keyword k =>
          cases k with
          | underscore =>
              exact .skip (Uses.keyword _) fun _ =>
                .pure (by
                  simp [Pattern.outline, Outline.leaf])
          | _ => exact hNamed
      | primitive p => exact hNamed
      | identifier name => exact hNamed
      | number value suffix => exact hLiteral
      | bool b => exact hLiteral
      | string s => exact hLiteral
      | _ => exact .fail _

/-
  Patterns with at most the levels of the limit are read
  again, with all their parts.
-/
theorem pattern_gives
    (hLevels : n ≤ limit) :
    (pattern n).Gives all fun p =>
      p.outline.ReadsAgain limit all := by
  induction n with
  | zero => exact .fail _
  | succ n ih =>
      refine .root (patternOf_gives (ih (by omega)))
        fun ts rest p hPlace hDone => ?_
      have hAgain :
          (Node.pattern p).ReadsAgain limit all :=
        readsAgain_of_done
          (fun r => pattern_replays (n + 1))
          ((pattern_uses (n + 1)).mono fun _ _ =>
            Pattern.encloses_of_owns)
          (pattern_deepens hLevels) hPlace hDone
      cases p <;> exact hAgain

------------------------------------------------------------
-- Parts Of Expressions
------------------------------------------------------------

section Parts

variable {inner : Parser Expression}
variable {innerTy : Parser Ty}
variable {innerPattern : Parser Pattern}
variable
  (hInner :
    inner.Gives all fun e => e.outline.ReadsAgain limit all)
variable
  (hTy :
    innerTy.Gives all fun t =>
      t.outline.ReadsAgain limit all)
variable
  (hPattern :
    innerPattern.Gives all fun p =>
      p.outline.ReadsAgain limit all)

/- The subject and the arms of a match are read again. -/
include hInner hPattern in
theorem matchOf_gives :
    (matchOf inner innerPattern).Gives all fun m =>
      ∀ o ∈ m.outlineParts, o.ReadsAgain limit all := by
  have hArm :
      (matchArm inner innerPattern).Gives all fun a =>
        a.outline.ReadsAgain limit all := by
    refine hPattern.bind fun p hFirst =>
      .skip (Uses.punct _) fun _ =>
        hInner.bind fun e hValue =>
          .skip (Uses.punct _).whenAt fun _ => .pure ?_
    simp [MatchArm.outline, Node.ReadsAgain, hFirst, hValue]
  refine .skip (Uses.keyword _) fun _ =>
    hInner.bind fun e hValue =>
      .skip (Uses.punct _) fun _ =>
        hArm.itemsUntil.bind fun parts hArms => .pure ?_
  simpa [Match.outlineParts, hValue] using hArms

/- The type and the value of a binding are read again. -/
include hInner hTy in
theorem letBinding_gives :
    (letBinding inner innerTy).Gives all fun b =>
      ∀ o ∈ b.outlineParts, o.ReadsAgain limit all := by
  have hColon :
      (do let _ ← punct .colon; innerTy).Gives all
        fun t : Ty => t.outline.ReadsAgain limit all :=
    .skip (Uses.punct _) fun _ => hTy
  have hEquals :
      (do let _ ← punct .equals; inner).Gives all
        fun e : Expression =>
          e.outline.ReadsAgain limit all :=
    .skip (Uses.punct _) fun _ => hInner
  refine .skip (Uses.keyword _) fun _ =>
    .skip (Uses.keyword _).whenAt fun _ =>
      .skip Uses.identifier fun name =>
        hColon.whenAt.bind fun ty hTypes =>
          hEquals.whenAt.bind fun value hValues =>
            .skip (Uses.punct _) fun _ => .pure ?_
  simpa [LetBinding.outlineParts, or_imp, forall_and] using
    And.intro hTypes hValues

/-
  A statement in a block is read again, or the last
  expression is.
-/
include hInner in
theorem expressionPart_gives :
    (expressionPart inner).Gives all
      (Sum.elim
        (fun s => s.outline.ReadsAgain limit all)
        fun last =>
          ∀ e ∈ last.1, e.outline.ReadsAgain limit all) := by
  refine hInner.bind fun e hValue =>
    .skip (Uses.punct _).whenAt fun marked => ?_
  cases marked with
  | some stop =>
      refine .pure ?_
      simpa [Statement.outline, Node.ReadsAgain] using hValue
  | none =>
      refine .skip (Uses.punct _).whenAt fun closed => ?_
      cases closed with
      | none => exact .fail _
      | some stop => exact .pure (by simpa using hValue)

/-
  A block has no parser for its own node, but all its parts
  are read again.
-/
include hInner hTy in
theorem blockOf_gives :
    (blockOf inner innerTy).Gives all fun b =>
      b.outline.ReadsAgain limit all := by
  have hOther := expressionPart_gives hInner
  have hPart :
      (blockPart inner innerTy).Gives all
        (Sum.elim
          (fun s => s.outline.ReadsAgain limit all)
          fun last =>
            ∀ e ∈ last.1,
              e.outline.ReadsAgain limit all) := by
    refine .peek_bind fun next => ?_
    cases next with
    | none => exact hOther
    | some kind =>
        cases kind with
        | punct mark =>
            cases mark with
            | rightBrace =>
                exact .skip (Uses.punct _) fun _ =>
                  .pure nofun
            | _ => exact hOther
        | keyword k =>
            cases k with
            | letKw =>
                refine (letBinding_gives hInner hTy).map
                  fun b hParts => ?_
                simpa [Statement.outline, Node.ReadsAgain]
                  using hParts
            | _ => exact hOther
        | _ => exact hOther
  refine .skip (Uses.punct _) fun _ =>
    (Gives.collect hPart).bind fun parts hParts => .pure ?_
  simpa [Block.outline, Node.ReadsAgain, or_imp,
    forall_and] using hParts

/-
  The parts of an expression are read again if those inside
  it are.
-/
include hInner hPattern in
theorem expressionOf_gives
    {block : Parser Block}
    (hBlock :
      block.Gives all fun b =>
        b.outline.ReadsAgain limit all) :
    (expressionOf inner block innerPattern).Gives all
      fun e => e.outline.PartsReadAgain limit all := by
  have hPath :
      (Expression.path <$> path).Gives all fun e =>
        e.outline.PartsReadAgain limit all :=
    .skipMap Uses.path fun p => by simp [Expression.outline]
  have hLiteral :
      (Expression.literal <$> literal .expression).Gives all
        fun e => e.outline.PartsReadAgain limit all :=
    .skipMap (Uses.literal _) fun l => by
      simp [Expression.outline]
  refine .peek_bind fun next => ?_
  cases next with
  | none => exact .fail _
  | some kind =>
      cases kind with
      | punct mark =>
          cases mark with
          | leftBrace =>
              refine hBlock.map fun b hParts => ?_
              simpa [Expression.outline] using hParts
          | _ => exact .fail _
      | keyword k =>
          cases k with
          | matchKw =>
              refine (matchOf_gives hInner hPattern).map
                fun m hParts => ?_
              simpa [Expression.outline] using hParts
          | _ => exact hPath
      | primitive p => exact hPath
      | identifier name => exact hPath
      | number value suffix => exact hLiteral
      | bool b => exact hLiteral
      | string s => exact hLiteral
      | _ => exact .fail _

end Parts

------------------------------------------------------------
-- Expressions And Blocks
------------------------------------------------------------

/- Expressions and blocks contain each other. -/
theorem expression_gives_and_block_gives
    (hLevels : n ≤ limit) :
    ((expression n).Gives all fun e =>
        e.outline.ReadsAgain limit all) ∧
      (block n).Gives all fun b =>
        b.outline.ReadsAgain limit all := by
  induction n with
  | zero =>
      rw [expression, block]
      exact ⟨.fail _, .fail _⟩
  | succ n ih =>
      have hLess : n ≤ limit := by omega
      rcases ih hLess with ⟨hExpression, hBlock⟩
      constructor
      · rw [expression]
        refine .root
          (expressionOf_gives hExpression
            (pattern_gives hLess) hBlock)
          fun ts rest e hPlace hDone => ?_
        rw [← expression] at hDone
        have hAgain :
            (Node.expression e).ReadsAgain limit all :=
          readsAgain_of_done
            (fun r => expression_replays (n + 1))
            ((expression_uses (n + 1)).mono fun _ _ =>
              Expression.encloses_of_owns)
            (expression_deepens hLevels) hPlace hDone
        cases e <;> exact hAgain
      · rw [block]
        exact blockOf_gives hExpression (ty_gives hLess)

theorem expression_gives
    (hLevels : n ≤ limit) :
    (expression n).Gives all fun e =>
      e.outline.ReadsAgain limit all :=
  (expression_gives_and_block_gives hLevels).1

theorem block_gives
    (hLevels : n ≤ limit) :
    (block n).Gives all fun b =>
      b.outline.ReadsAgain limit all :=
  (expression_gives_and_block_gives hLevels).2

end Parser

end FeSyntax
