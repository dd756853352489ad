import FeSyntax.Proofs.Parsing.Advance
import FeSyntax.Proofs.Parsing.Dispatch

/-
  This file proves how far the parsers of the grammar go.
  Each of them passes a token before it is done, and with
  `n` levels it runs out of them only behind half as many
  tokens: an expression that is a block takes two levels at
  one token, and nothing takes more.

  Key theorems include:
    * `Parser.ty_passes`
    * `Parser.pattern_passes`
    * `Parser.expression_passes`
    * `Parser.block_passes`
    * `Parser.definition_passes`
    * `Parser.definitions_passes`
-/

namespace FeSyntax

namespace Parser

variable {n : Nat}

------------------------------------------------------------
-- Types And Patterns
------------------------------------------------------------

/-
  A type passes at least a token, and may run out one level
  later than the types inside it.
-/
theorem tyOf_passes
    {inner : Parser Ty}
    (hInner : inner.Passes 1 n) :
    (tyOf inner).Passes 1 (n + 1) := by
  have hPrimitive : primitiveTy.Passes 1 (n + 1) :=
    (Passes.accept fun _ => rfl).first fun _ => .pure _
  have hReference : (referenceTy inner).Passes 1 (n + 1) :=
    (Passes.punct .ampersand).behind fun _ =>
      (Passes.keyword? .mutKw).first fun _ =>
        (hInner.weaken (by omega)).first fun _ => .pure _
  have hTuple : (tupleTy inner).Passes 1 (n + 1) :=
    (Passes.punct .leftParen).behind fun _ =>
      (hInner.commaList .rightParen |>.weaken
        (by omega)).first fun _ => .pure _
  have hWord :
      ∀ kind : TokenKind,
        (if kind.word?.isSome then Ty.path <$> path
          else fail (.expected .type)).Passes 1
            (n + 1) := by
    intro kind
    split
    · exact Passes.path.map _
    · exact .ofExpected _
  refine Passes.peek.later fun next => ?_
  cases next with
  | none => exact .ofExpected _
  | some kind =>
      cases kind with
      | primitive p => exact hPrimitive
      | punct mark =>
          cases mark with
          | ampersand => exact hReference
          | leftParen => exact hTuple
          | _ => exact hWord _
      | _ => exact hWord _

theorem patternOf_passes
    {inner : Parser Pattern}
    (hInner : inner.Passes 1 n) :
    (patternOf inner).Passes 1 (n + 1) := by
  have hElements :
      (commaList .rightParen inner).Passes 0 (n - 1) :=
    (hInner.commaList .rightParen).weaken (Nat.sub_le n 1)
  have hNamed : (namedPattern inner).Passes 1 (n + 1) := by
    refine Passes.path.behind fun p =>
      (Passes.punct? .leftParen).first fun opened => ?_
    cases opened with
    | some span =>
        exact hElements.first fun _ => .pure _
    | none =>
        rcases p with ⟨segments, span⟩
        cases segments with
        | nil => exact .ofExpected _
        | cons name more =>
            cases more with
            | nil => exact .pure _
            | cons _ _ => exact .ofExpected _
  have hWildcard : wildcardPattern.Passes 1 (n + 1) :=
    (Passes.keyword .underscore).first fun _ => .pure _
  have hOther :
      ∀ kind : TokenKind,
        (if kind.literal?.isSome then
            Pattern.literal <$> literal .pattern
          else if kind.word?.isSome then namedPattern inner
          else fail (.expected .pattern)).Passes 1
            (n + 1) := by
    intro kind
    split
    · exact (Passes.literal _).map _
    · split
      · exact hNamed
      · exact .ofExpected _
  refine Passes.peek.later fun next => ?_
  cases next with
  | none => exact .ofExpected _
  | some kind =>
      cases kind with
      | keyword k =>
          cases k with
          | underscore => exact hWildcard
          | _ => exact hOther _
      | _ => exact hOther _

------------------------------------------------------------
-- Expressions And Blocks
------------------------------------------------------------

section Expressions

variable {inner : Parser Expression}
variable {innerBlock : Parser Block}
variable {innerTy : Parser Ty}
variable {innerPattern : Parser Pattern}
variable (hInner : inner.Passes 1 (n - 1))
variable (hBlock : innerBlock.Passes 1 n)
variable (hTy : innerTy.Passes 1 n)
variable (hPattern : innerPattern.Passes 1 n)

/- An arm passes its pattern at least. -/
include hInner hPattern in
theorem matchArm_passes :
    (matchArm inner innerPattern).Passes 1 (n - 1) := by
  have hStart :=
    hPattern.mono (Nat.le_refl 1) (Nat.sub_le n 1)
  exact hStart.first fun _ =>
    (Passes.punct .fatArrow).next fun _ =>
      hInner.next fun _ =>
        (Passes.punct? .semicolon).next fun _ => .pure _

/-
  A match passes its keyword, which stands for two levels.
-/
include hInner hPattern in
theorem matchOf_passes :
    (matchOf inner innerPattern).Passes 1 n := by
  have hArms :=
    ((matchArm_passes hInner hPattern).weaken
      (Nat.le_refl _)).itemsUntil .rightBrace
  exact (Passes.keyword .matchKw).behind fun _ =>
    (hInner.weaken (by omega)).next fun _ =>
      (Passes.punct .leftBrace).next fun _ =>
        (hArms.weaken (by omega)).next fun _ => .pure _

/- A binding passes its keyword. -/
include hInner hTy in
theorem letBinding_passes :
    (letBinding inner innerTy).Passes 1 n := by
  have hColon :
      (do let _ ← punct .colon; innerTy).Passes 1 n :=
    (Passes.punct .colon).behind fun _ =>
      hTy.weaken (Nat.sub_le _ _)
  have hEquals :
      (do let _ ← punct .equals; inner).Passes 1 (n - 1) :=
    (Passes.punct .equals).behind fun _ =>
      hInner.weaken (Nat.sub_le _ _)
  exact (Passes.keyword .letKw).behind fun _ =>
    (Passes.keyword? .mutKw).next fun _ =>
      Passes.identifier.next fun _ =>
        ((hColon.whenAt _).weaken (by omega)).next fun _ =>
          ((hEquals.whenAt _).weaken (by omega)).next
            fun _ => (Passes.punct .semicolon).next
              fun _ => .pure _

/- The part of a block that comes next may be its end. -/
include hInner hTy in
theorem blockPart_passes :
    (blockPart inner innerTy).Passes 0 (n - 1) := by
  have hEnd :
      ∀ value : Option Expression,
        (do
          let stop ← punct .rightBrace
          pure (.inr (value, stop)) :
            Parser (Statement ⊕ BlockEnd)).Passes 0
          (n - 1) :=
    fun _ =>
      (Passes.punct .rightBrace).next fun _ => .pure _
  have hPart : (expressionPart inner).Passes 0 (n - 1) := by
    refine hInner.next fun _ =>
      (Passes.punct? .semicolon).next fun found => ?_
    cases found with
    | some span => exact .pure _
    | none =>
        refine (Passes.punct? .rightBrace).next
          fun closed => ?_
        cases closed with
        | some span => exact .pure _
        | none => exact .ofExpected _
  have hLet := letBinding_passes hInner hTy
  refine Passes.peek.first fun next => ?_
  cases next with
  | none => exact hPart
  | some kind =>
      cases kind with
      | punct mark =>
          cases mark with
          | rightBrace => exact hEnd none
          | _ => exact hPart
      | keyword k =>
          cases k with
          | letKw =>
              exact (hLet.map _).weaken (Nat.sub_le _ _)
          | _ => exact hPart
      | _ => exact hPart

/-
  A statement is never empty, so statements come to an end.
-/
include hInner hTy in
theorem ItemsAdvance.blockPart :
    (blockPart inner innerTy).ItemsAdvance := by
  intro ts rest s hDone
  rcases blockPart_eq_done.mp hDone with
    ⟨stop, -, hPart⟩ | ⟨-, b, hLet, -⟩ | ⟨-, -, hPart⟩
  · cases hPart
  · exact (letBinding_passes hInner hTy).done hLet
  · rcases expressionPart_eq_done.mp hPart with
      ⟨value, mid, hValue, ⟨stop, hStop, -⟩ | hLast⟩
    · have hPasses : (punct .semicolon).Passes 1 0 :=
        .punct .semicolon
      exact ((hInner.done hValue).trans
        (hPasses.done hStop)).mono (by omega)
    · rcases hLast with ⟨-, stop, -, hEnd⟩
      cases hEnd

/-
  A block passes its brace, and may run out one level later
  than the parts inside it.
-/
include hInner hTy in
theorem blockOf_passes :
    (blockOf inner innerTy).Passes 1 (n + 1) :=
  (Passes.punct .leftBrace).behind fun _ =>
    (Passes.collect (blockPart_passes hInner hTy)).next
      fun _ => .pure _

/- An expression passes a token, whichever form it has. -/
include hInner hBlock hPattern in
theorem expressionOf_passes :
    (expressionOf inner innerBlock innerPattern).Passes 1
      n := by
  have hMatch := matchOf_passes hInner hPattern
  have hOther :
      ∀ kind : TokenKind,
        (if kind.literal?.isSome then
            Expression.literal <$> literal .expression
          else if kind.word?.isSome then
            Expression.path <$> path
          else fail (.expected .expression)).Passes 1
            n := by
    intro kind
    split
    · exact (Passes.literal _).map _
    · split
      · exact Passes.path.map _
      · exact .ofExpected _
  refine Passes.peek.later fun next => ?_
  cases next with
  | none => exact .ofExpected _
  | some kind =>
      cases kind with
      | punct mark =>
          cases mark with
          | leftBrace => exact hBlock.map _
          | _ => exact hOther _
      | keyword k =>
          cases k with
          | matchKw => exact hMatch.map _
          | _ => exact hOther _
      | _ => exact hOther _

end Expressions

------------------------------------------------------------
-- Levels Of Types, Patterns And Expressions
------------------------------------------------------------

/-
  A type that runs out of its levels has passed half as many
  tokens.
-/
theorem ty_passes
    (n : Nat) :
    (ty n).Passes 1 n := by
  induction n with
  | zero => exact .ofTooDeep
  | succ n ih => exact tyOf_passes ih

theorem pattern_passes
    (n : Nat) :
    (pattern n).Passes 1 n := by
  induction n with
  | zero => exact .ofTooDeep
  | succ n ih => exact patternOf_passes ih

/-
  An expression that is a block takes a level before its
  first token, so it has one level less to show.
-/
theorem expression_passes_and_block_passes
    (n : Nat) :
    (expression n).Passes 1 (n - 1) ∧
      (block n).Passes 1 n := by
  induction n with
  | zero =>
      rw [expression, block]
      exact ⟨.ofTooDeep, .ofTooDeep⟩
  | succ n ih =>
      rcases ih with ⟨hExpression, hBlock⟩
      rw [expression, block]
      exact
        ⟨expressionOf_passes hExpression hBlock
            (pattern_passes n),
          blockOf_passes hExpression (ty_passes n)⟩

/- The half of it about expressions. -/
theorem expression_passes
    (n : Nat) :
    (expression n).Passes 1 (n - 1) :=
  (expression_passes_and_block_passes n).1

/- The half of it about blocks. -/
theorem block_passes
    (n : Nat) :
    (block n).Passes 1 n :=
  (expression_passes_and_block_passes n).2

------------------------------------------------------------
-- Functions
------------------------------------------------------------

/- A type behind the token that leads to it. -/
theorem leadingTy_passes
    {lead : Parser Span}
    (hLead : lead.Passes 1 n) :
    (do let _ ← lead; ty n).Passes 1 n :=
  hLead.behind fun _ =>
    (ty_passes n).weaken (Nat.sub_le _ _)

/- A parameter passes its name. -/
theorem param_passes
    (n : Nat) :
    (param n).Passes 1 n :=
  Passes.identifier.first fun _ =>
    (Passes.punct .colon).next fun _ =>
      (ty_passes n).next fun _ => .pure _

/-
  A function passes its keyword, which makes up for one more
  level.
-/
theorem function_passes
    (n : Nat)
    (visibility : Option Span) :
    (function n visibility).Passes 1 (n + 1) := by
  have hParams := (param_passes n).commaList .rightParen
  have hReturn :=
    (leadingTy_passes (n := n)
      (Passes.punct .arrow)).whenAt (.punct .arrow)
  exact (Passes.keyword .fnKw).behind fun _ =>
    Passes.identifier.next fun _ =>
      Passes.typeParams.next fun _ =>
        (Passes.punct .leftParen).next fun _ =>
          (hParams.weaken (by omega)).next fun _ =>
            (hReturn.weaken (by omega)).next fun _ =>
              ((block_passes n).weaken (by omega)).next
                fun _ => .pure _

/- A member function passes its keyword or its `pub`. -/
theorem memberFunction_passes
    (n : Nat) :
    (memberFunction n).Passes 1 n := by
  refine (Passes.keyword? .pubKw).later fun v =>
    (Passes.peek.first fun _ => .pure _).later
      fun isThere => ?_
  cases isThere with
  | false => exact .ofExpected _
  | true =>
      cases n with
      | zero => exact .ofTooDeep
      | succ n => exact function_passes n v

/- Functions between braces pass the brace. -/
theorem functionList_passes
    (n : Nat) :
    (functionList n).Passes 1 n :=
  (Passes.punct .leftBrace).first fun _ =>
    ((memberFunction_passes n).weaken
      (Nat.le_refl _)).itemsUntil .rightBrace

------------------------------------------------------------
-- Definitions
------------------------------------------------------------

theorem field_passes
    (n : Nat) :
    (field n).Passes 1 n :=
  (Passes.keyword? .pubKw).later fun _ =>
    Passes.identifier.first fun _ =>
      (Passes.punct .colon).next fun _ =>
        (ty_passes n).next fun _ => .pure _

/-
  The body of a struct passes its brace or its semicolon.
-/
theorem structBody_passes
    (n : Nat) :
    (structBody n).Passes 1 n := by
  have hFields := (field_passes n).commaList .rightBrace
  refine Passes.peek.later fun next => ?_
  cases next with
  | none => exact .ofExpected _
  | some kind =>
      cases kind with
      | punct mark =>
          cases mark with
          | semicolon =>
              exact (Passes.punct .semicolon).first fun _ =>
                .pure _
          | leftBrace =>
              exact (Passes.punct .leftBrace).first fun _ =>
                hFields.first fun _ => .pure _
          | _ => exact .ofExpected _
      | _ => exact .ofExpected _

/-
  A struct passes its keyword, which makes up for one more
  level.
-/
theorem struct_passes
    (n : Nat)
    (visibility : Option Span) :
    (struct n visibility).Passes 1 (n + 1) :=
  (Passes.keyword .structKw).behind fun _ =>
    Passes.identifier.next fun _ =>
      Passes.typeParams.next fun _ =>
        ((structBody_passes n).weaken (by omega)).next
          fun _ => .pure _

theorem constant_passes
    (n : Nat)
    (visibility : Option Span) :
    (constant n visibility).Passes 1 (n + 1) :=
  (Passes.keyword .constKw).behind fun _ =>
    Passes.identifier.next fun _ =>
      (Passes.punct .colon).next fun _ =>
        ((ty_passes n).weaken (by omega)).next fun _ =>
          (Passes.punct .equals).next fun _ =>
            ((expression_passes n).weaken (by omega)).next
              fun _ => (Passes.punct .semicolon).next
                fun _ => .pure _

theorem typeAlias_passes
    (n : Nat)
    (visibility : Option Span) :
    (typeAlias n visibility).Passes 1 (n + 1) :=
  (Passes.keyword .typeKw).behind fun _ =>
    Passes.identifier.next fun _ =>
      Passes.typeParams.next fun _ =>
        (Passes.punct .equals).next fun _ =>
          ((ty_passes n).weaken (by omega)).next fun _ =>
            (Passes.punct .semicolon).next fun _ => .pure _

theorem trait_passes
    (n : Nat)
    (visibility : Option Span) :
    (trait n visibility).Passes 1 (n + 1) :=
  (Passes.keyword .traitKw).behind fun _ =>
    Passes.identifier.next fun _ =>
      Passes.typeParams.next fun _ =>
        ((functionList_passes n).weaken (by omega)).next
          fun _ => .pure _

theorem impl_passes
    (n : Nat) :
    (impl n).Passes 1 (n + 1) := by
  have hTrait :=
    (leadingTy_passes (n := n)
      (Passes.keyword .forKw)).whenAt (.keyword .forKw)
  exact (Passes.keyword .implKw).behind fun _ =>
    ((ty_passes n).weaken (by omega)).next fun _ =>
      (hTrait.weaken (by omega)).next fun _ =>
        ((functionList_passes n).weaken (by omega)).next
          fun _ => .pure _

/-
  A definition inside a module passes what it passes
  elsewhere.
-/
theorem moduleItem_passes
    {inner : Parser Definition}
    (hInner : inner.Passes 1 n) :
    (moduleItem inner).Passes 1 n := by
  refine Passes.peek.later fun next => ?_
  cases next with
  | none => exact .ofExpected _
  | some kind => exact hInner

/-
  A module passes its keyword in front of its definitions.
-/
theorem moduleOf_passes
    {inner : Parser Definition}
    (hInner : inner.Passes 1 n) :
    (moduleOf inner).Passes 1 (n + 1) := by
  have hItem :=
    (moduleItem_passes hInner).weaken (Nat.sub_le n 1)
  exact (Passes.keyword .modKw).behind fun _ =>
    Passes.identifier.next fun _ =>
      (Passes.punct .leftBrace).next fun _ =>
        (hItem.itemsUntil .rightBrace).next fun _ => .pure _

/-
  A definition passes its keyword, whichever form it has.
-/
theorem definitionOf_passes
    {inner : Parser Definition}
    (hInner : inner.Passes 1 n) :
    (definitionOf n inner).Passes 1 (n + 1) := by
  refine (Passes.keyword? .pubKw).later fun v =>
    Passes.peek.later fun next => ?_
  cases next with
  | none => cases v <;> exact .ofExpected _
  | some kind =>
      cases kind with
      | keyword k =>
          cases k with
          | modKw =>
              cases v with
              | none => exact (moduleOf_passes hInner).map _
              | some span => exact .ofExpected _
          | implKw =>
              cases v with
              | none => exact (impl_passes n).map _
              | some span => exact .ofExpected _
          | fnKw =>
              cases v <;> exact (function_passes n _).map _
          | traitKw =>
              cases v <;> exact (trait_passes n _).map _
          | structKw =>
              cases v <;> exact (struct_passes n _).map _
          | constKw =>
              cases v <;> exact (constant_passes n _).map _
          | typeKw =>
              cases v <;> exact (typeAlias_passes n _).map _
          | _ => cases v <;> exact .ofExpected _
      | _ => cases v <;> exact .ofExpected _

/-
  A definition that runs out of its levels has passed half
  as many tokens.
-/
theorem definition_passes
    (n : Nat) :
    (definition n).Passes 1 n := by
  induction n with
  | zero => exact .ofTooDeep
  | succ n ih => exact definitionOf_passes ih

/- Between definitions, there may be nothing left. -/
theorem definitionStep_passes
    (n : Nat) :
    (definitionStep n).Passes 0 n := by
  refine Passes.peek.first fun next => ?_
  cases next with
  | none => exact .pure _
  | some kind =>
      exact ((definition_passes n).map _).weaken
        (Nat.le_refl _)

/- The definitions of a text pass it as far as they go. -/
theorem definitions_passes
    (n : Nat) :
    (definitions n).Passes 0 n :=
  (Passes.collect (definitionStep_passes n)).first fun _ =>
    .pure _

/-
  A definition is never empty, so definitions come to an
  end.
-/
theorem ItemsAdvance.definitionStep
    (n : Nat) :
    (definitionStep n).ItemsAdvance := by
  intro ts rest d hDone
  rcases definitionStep_eq_done.mp hDone with
    ⟨-, d', hRun, -⟩ | ⟨-, -, hPart⟩
  · exact (definition_passes n).done hRun
  · cases hPart

end Parser

end FeSyntax
