import FeSyntax.Parse.Definition
import FeSyntax.Proofs.Parsing.Outcome

/-
  This file proves that more levels of nesting change
  nothing but where a parser runs out of them: with more
  levels it gives the same value, or stops for the same
  reason at the same token, unless it ran out before.

  Key definitions include:
    * `Parser.Deepens`

  Key theorems include:
    * `Parser.Deepens.bind`
    * `Parser.Deepens.collect`
    * `Parser.ty_deepens`
    * `Parser.expression_deepens`
    * `Parser.definition_deepens`
    * `Parser.definitions_deepens`
-/

namespace FeSyntax

namespace Parser

variable {α β : Type}

/-
  Where the first parser does not run out of levels, the
  second one does the same.
-/
def Deepens
    (p q : Parser α) : Prop :=
  ∀ ts,
    (∃ rest, p ts = .stopped .tooDeep rest) ∨ q ts = p ts

------------------------------------------------------------
-- Sequences And Repetitions
------------------------------------------------------------

namespace Deepens

/- A parser does the same as itself. -/
theorem refl
    (p : Parser α) :
    p.Deepens p :=
  fun _ => .inr rfl

/- A parser without levels runs out at once. -/
theorem ofTooDeep
    (q : Parser α) :
    (fail .tooDeep : Parser α).Deepens q :=
  fun ts => .inl ⟨ts, rfl⟩

/- In sequence, both parsers may have more levels. -/
theorem bind
    {p p' : Parser α}
    {f f' : α → Parser β}
    (hParser : p.Deepens p')
    (hNext : ∀ a, (f a).Deepens (f' a)) :
    (p >>= f).Deepens (p' >>= f') := by
  intro ts
  rw [bind_eq_andThen, bind_eq_andThen, andThen, andThen]
  rcases hParser ts with ⟨rest, hDeep⟩ | hSame
  · rw [hDeep]
    exact .inl ⟨rest, rfl⟩
  · rw [hSame]
    cases p ts with
    | done a mid => exact hNext a mid
    | stopped fault mid => exact .inr rfl

/- What comes before the levels matter is the same. -/
theorem behind
    {f f' : α → Parser β}
    (p : Parser α)
    (hNext : ∀ a, (f a).Deepens (f' a)) :
    (p >>= f).Deepens (p >>= f') :=
  (refl p).bind hNext

/- What comes after the levels mattered is the same. -/
theorem before
    {p p' : Parser α}
    (hParser : p.Deepens p')
    (f : α → Parser β) :
    (p >>= f).Deepens (p' >>= f) :=
  hParser.bind fun a => refl (f a)

/- A function of the value needs no levels. -/
theorem map
    {p p' : Parser α}
    (f : α → β)
    (hParser : p.Deepens p') :
    (f <$> p).Deepens (f <$> p') :=
  hParser.before fun a => pure (f a)

/- A part that may be missing may have more levels. -/
theorem whenAt
    {p p' : Parser α}
    (kind : TokenKind)
    (hPart : p.Deepens p') :
    (whenAt kind p).Deepens (Parser.whenAt kind p') := by
  refine behind (isAt kind) fun isThere => ?_
  cases isThere with
  | false => exact refl _
  | true => exact hPart.map some

/- A repetition may have more levels in every step. -/
theorem collectWithin
    {missing : Expectation}
    {step step' : Parser (α ⊕ β)}
    (hStep : step.Deepens step')
    (found : List α)
    (fuel : List Token) :
    (collectWithin missing step found fuel).Deepens
      (Parser.collectWithin missing step' found fuel) := by
  -- The recursion is on the fuel, with any items found.
  induction fuel generalizing found with
  | nil =>
      rw [collectWithin_nil, collectWithin_nil]
      exact hStep.before _
  | cons t fuel ih =>
      rw [collectWithin_cons, collectWithin_cons]
      refine hStep.bind fun part => ?_
      cases part with
      | inl a => exact ih (a :: found)
      | inr b => exact refl _

/- With its own fuel the same holds. -/
theorem collect
    {missing : Expectation}
    {step step' : Parser (α ⊕ β)}
    (hStep : step.Deepens step') :
    (collect missing step).Deepens
      (Parser.collect missing step') :=
  fun ts => collectWithin hStep [] ts ts

------------------------------------------------------------
-- Lists
------------------------------------------------------------

section Lists

variable {item item' : Parser α}
variable (hItem : item.Deepens item')

include hItem

/- Items up to a mark may have more levels. -/
theorem itemsUntil
    (close : Punct) :
    (itemsUntil close item).Deepens
      (Parser.itemsUntil close item') := by
  refine collect (behind (punct? close) fun closed => ?_)
  cases closed with
  | some span => exact refl _
  | none => exact hItem.map Sum.inl

/- So may items that follow a mark each. -/
theorem itemsAfter
    (mark : Punct) :
    (itemsAfter mark item).Deepens
      (Parser.itemsAfter mark item') := by
  refine before
    (collect (behind (punct? mark) fun found => ?_)) _
  cases found with
  | some span => exact hItem.map Sum.inl
  | none => exact refl _

theorem commaItems :
    (commaItems item).Deepens (Parser.commaItems item') :=
  hItem.bind fun _ => (itemsAfter hItem .comma).before _

/- So may a list that is closed by a mark. -/
theorem commaList
    (close : Punct) :
    (commaList close item).Deepens
      (Parser.commaList close item') := by
  refine behind (punct? close) fun closed => ?_
  cases closed with
  | some span => exact refl _
  | none => exact (commaItems hItem).before _

end Lists

end Deepens

------------------------------------------------------------
-- Types And Patterns
------------------------------------------------------------

/- A type has more levels if the types inside it do. -/
theorem tyOf_deepens
    {inner inner' : Parser Ty}
    (hInner : inner.Deepens inner') :
    (tyOf inner).Deepens (tyOf inner') := by
  have hReference :
      (referenceTy inner).Deepens (referenceTy inner') :=
    .behind _ fun _ => .behind _ fun _ => hInner.before _
  have hTuple : (tupleTy inner).Deepens (tupleTy inner') :=
    .behind _ fun _ =>
      (hInner.commaList .rightParen).before _
  refine .behind peek fun next => ?_
  cases next with
  | none => exact .refl _
  | some kind =>
      cases kind with
      | punct mark =>
          cases mark with
          | ampersand => exact hReference
          | leftParen => exact hTuple
          | _ => exact .refl _
      | _ => exact .refl _

/-
  A pattern has more levels if the patterns inside it do.
-/
theorem patternOf_deepens
    {inner inner' : Parser Pattern}
    (hInner : inner.Deepens inner') :
    (patternOf inner).Deepens (patternOf inner') := by
  have hNamed :
      (namedPattern inner).Deepens
        (namedPattern inner') := by
    refine .behind path fun p =>
      .behind (punct? .leftParen) fun opened => ?_
    cases opened with
    | none => exact .refl _
    | some span =>
        exact (hInner.commaList .rightParen).before _
  refine .behind peek fun next => ?_
  cases next with
  | none => exact .refl _
  | some kind =>
      cases kind with
      | keyword k =>
          cases k with
          | underscore => exact .refl _
          | _ => exact hNamed
      | primitive p => exact hNamed
      | identifier name => exact hNamed
      | _ => exact .refl _

------------------------------------------------------------
-- Expressions And Blocks
------------------------------------------------------------

section Expressions

variable {inner inner' : Parser Expression}
variable {innerBlock innerBlock' : Parser Block}
variable {innerTy innerTy' : Parser Ty}
variable {innerPattern innerPattern' : Parser Pattern}
variable (hInner : inner.Deepens inner')
variable (hBlock : innerBlock.Deepens innerBlock')
variable (hTy : innerTy.Deepens innerTy')
variable (hPattern : innerPattern.Deepens innerPattern')

/- A match has more levels if its parts do. -/
include hInner hPattern in
theorem matchOf_deepens :
    (matchOf inner innerPattern).Deepens
      (matchOf inner' innerPattern') := by
  have hArm :
      (matchArm inner innerPattern).Deepens
        (matchArm inner' innerPattern') :=
    hPattern.bind fun _ => .behind _ fun _ =>
      hInner.before _
  exact .behind _ fun _ => hInner.bind fun _ =>
    .behind _ fun _ =>
      (hArm.itemsUntil .rightBrace).before _

/-
  A binding has more levels if its type and its value do.
-/
include hInner hTy in
theorem letBinding_deepens :
    (letBinding inner innerTy).Deepens
      (letBinding inner' innerTy') := by
  have hColon :
      (do let _ ← punct .colon; innerTy).Deepens
        (do let _ ← punct .colon; innerTy') :=
    .behind _ fun _ => hTy
  have hEquals :
      (do let _ ← punct .equals; inner).Deepens
        (do let _ ← punct .equals; inner') :=
    .behind _ fun _ => hInner
  exact .behind _ fun _ => .behind _ fun _ =>
    .behind _ fun _ => (hColon.whenAt _).bind fun _ =>
      (hEquals.whenAt _).before _

/- A block has more levels if its parts do. -/
include hInner hTy in
theorem blockOf_deepens :
    (blockOf inner innerTy).Deepens
      (blockOf inner' innerTy') := by
  have hPart :
      (expressionPart inner).Deepens
        (expressionPart inner') :=
    hInner.before _
  have hLet := letBinding_deepens hInner hTy
  refine .behind _ fun _ => (Deepens.collect ?_).before _
  refine .behind peek fun next => ?_
  cases next with
  | none => exact hPart
  | some kind =>
      cases kind with
      | punct mark =>
          cases mark with
          | rightBrace => exact .refl _
          | _ => exact hPart
      | keyword k =>
          cases k with
          | letKw => exact hLet.map _
          | _ => exact hPart
      | _ => exact hPart

/-
  An expression has more levels if its parts do, whichever
  form it has.
-/
include hInner hBlock hPattern in
theorem expressionOf_deepens :
    (expressionOf inner innerBlock innerPattern).Deepens
      (expressionOf inner' innerBlock' innerPattern') := by
  have hMatch := matchOf_deepens hInner hPattern
  refine .behind peek fun next => ?_
  cases next with
  | none => exact .refl _
  | some kind =>
      cases kind with
      | punct mark =>
          cases mark with
          | leftBrace => exact hBlock.map _
          | _ => exact .refl _
      | keyword k =>
          cases k with
          | matchKw => exact hMatch.map _
          | _ => exact .refl _
      | _ => exact .refl _

end Expressions

------------------------------------------------------------
-- Levels Of Types, Patterns And Expressions
------------------------------------------------------------

variable {n m : Nat}

/-
  By induction on the levels, a type with more of them gives
  the same.
-/
theorem ty_deepens
    (hLevels : n ≤ m) :
    (ty n).Deepens (ty m) := by
  induction n generalizing m with
  | zero => exact .ofTooDeep _
  | succ n ih =>
      cases m with
      | zero => omega
      | succ m => exact tyOf_deepens (ih (by omega))

theorem pattern_deepens
    (hLevels : n ≤ m) :
    (pattern n).Deepens (pattern m) := by
  induction n generalizing m with
  | zero => exact .ofTooDeep _
  | succ n ih =>
      cases m with
      | zero => omega
      | succ m => exact patternOf_deepens (ih (by omega))

/- Expressions and blocks contain each other. -/
theorem expression_deepens_and_block_deepens
    (hLevels : n ≤ m) :
    (expression n).Deepens (expression m) ∧
      (block n).Deepens (block m) := by
  induction n generalizing m with
  | zero =>
      rw [expression, block]
      exact ⟨.ofTooDeep _, .ofTooDeep _⟩
  | succ n ih =>
      cases m with
      | zero => omega
      | succ m =>
          have hLess : n ≤ m := by omega
          rcases ih hLess with ⟨hExpression, hBlock⟩
          simp only [expression, block]
          exact
            ⟨expressionOf_deepens hExpression hBlock
                (pattern_deepens hLess),
              blockOf_deepens hExpression
                (ty_deepens hLess)⟩

/- The half of it about expressions. -/
theorem expression_deepens
    (hLevels : n ≤ m) :
    (expression n).Deepens (expression m) :=
  (expression_deepens_and_block_deepens hLevels).1

/- The half of it about blocks. -/
theorem block_deepens
    (hLevels : n ≤ m) :
    (block n).Deepens (block m) :=
  (expression_deepens_and_block_deepens hLevels).2

------------------------------------------------------------
-- Functions
------------------------------------------------------------

section Definitions

variable (hLevels : n ≤ m)

include hLevels

/- A type behind the token that leads to it. -/
theorem leadingTy_deepens
    (lead : Parser Span) :
    (do let _ ← lead; ty n).Deepens
      (do let _ ← lead; ty m) :=
  .behind _ fun _ => ty_deepens hLevels

/- A function with more levels gives the same. -/
theorem function_deepens
    (visibility : Option Span) :
    (function n visibility).Deepens
      (function m visibility) := by
  have hParam : (param n).Deepens (param m) :=
    .behind _ fun _ => .behind _ fun _ =>
      (ty_deepens hLevels).before _
  have hReturn :=
    (leadingTy_deepens hLevels (punct .arrow)).whenAt
      (.punct .arrow)
  exact .behind _ fun _ => .behind _ fun _ =>
    .behind _ fun _ => .behind _ fun _ =>
      (hParam.commaList .rightParen).bind fun _ =>
        hReturn.bind fun _ =>
          (block_deepens hLevels).before _

/- So does one that takes a level first. -/
theorem nestedFunction_deepens
    (visibility : Option Span) :
    (nestedFunction n visibility).Deepens
      (nestedFunction m visibility) := by
  cases n with
  | zero => exact .ofTooDeep _
  | succ n =>
      cases m with
      | zero => omega
      | succ m =>
          exact function_deepens (by omega) visibility

theorem functionList_deepens :
    (functionList n).Deepens (functionList m) := by
  have hMember :
      (memberFunction n).Deepens (memberFunction m) := by
    refine .behind _ fun v => .behind _ fun isThere => ?_
    cases isThere with
    | false => exact .refl _
    | true => exact nestedFunction_deepens hLevels v
  exact .behind _ fun _ => hMember.itemsUntil .rightBrace

------------------------------------------------------------
-- Definitions
------------------------------------------------------------

/- A struct with more levels gives the same. -/
theorem struct_deepens
    (visibility : Option Span) :
    (struct n visibility).Deepens
      (struct m visibility) := by
  have hField : (field n).Deepens (field m) :=
    .behind _ fun _ => .behind _ fun _ => .behind _ fun _ =>
      (ty_deepens hLevels).before _
  have hBody : (structBody n).Deepens (structBody m) := by
    refine .behind peek fun next => ?_
    cases next with
    | none => exact .refl _
    | some kind =>
        cases kind with
        | punct mark =>
            cases mark with
            | leftBrace =>
                exact .behind _ fun _ =>
                  (hField.commaList .rightBrace).before _
            | _ => exact .refl _
        | _ => exact .refl _
  exact .behind _ fun _ => .behind _ fun _ =>
    .behind _ fun _ => hBody.before _

theorem constant_deepens
    (visibility : Option Span) :
    (constant n visibility).Deepens
      (constant m visibility) :=
  .behind _ fun _ => .behind _ fun _ => .behind _ fun _ =>
    (ty_deepens hLevels).bind fun _ => .behind _ fun _ =>
      (expression_deepens hLevels).before _

theorem typeAlias_deepens
    (visibility : Option Span) :
    (typeAlias n visibility).Deepens
      (typeAlias m visibility) :=
  .behind _ fun _ => .behind _ fun _ => .behind _ fun _ =>
    .behind _ fun _ => (ty_deepens hLevels).before _

theorem trait_deepens
    (visibility : Option Span) :
    (trait n visibility).Deepens (trait m visibility) :=
  .behind _ fun _ => .behind _ fun _ => .behind _ fun _ =>
    (functionList_deepens hLevels).before _

theorem impl_deepens :
    (impl n).Deepens (impl m) := by
  have hTrait :=
    (leadingTy_deepens hLevels (keyword .forKw)).whenAt
      (.keyword .forKw)
  exact .behind _ fun _ =>
    (ty_deepens hLevels).bind fun _ =>
      hTrait.bind fun _ =>
        (functionList_deepens hLevels).before _

end Definitions

/- A module has more levels if its definitions do. -/
theorem moduleOf_deepens
    {inner inner' : Parser Definition}
    (hInner : inner.Deepens inner') :
    (moduleOf inner).Deepens (moduleOf inner') := by
  refine .behind _ fun _ => .behind _ fun _ =>
    .behind _ fun _ => (Deepens.itemsUntil ?_ _).before _
  refine .behind peek fun next => ?_
  cases next with
  | none => exact .refl _
  | some kind => exact hInner

/-
  A definition has more levels if its parts do, whichever
  form it has.
-/
theorem definitionOf_deepens
    {inner inner' : Parser Definition}
    (hLevels : n ≤ m)
    (hInner : inner.Deepens inner') :
    (definitionOf n inner).Deepens
      (definitionOf m inner') := by
  refine .behind _ fun v => .behind peek fun next => ?_
  cases next with
  | none => cases v <;> exact .refl _
  | some kind =>
      cases kind with
      | keyword k =>
          cases k with
          | modKw =>
              cases v with
              | none =>
                  exact (moduleOf_deepens hInner).map _
              | some span => exact .refl _
          | implKw =>
              cases v with
              | none => exact (impl_deepens hLevels).map _
              | some span => exact .refl _
          | fnKw =>
              cases v <;>
                exact (function_deepens hLevels _).map _
          | traitKw =>
              cases v <;>
                exact (trait_deepens hLevels _).map _
          | structKw =>
              cases v <;>
                exact (struct_deepens hLevels _).map _
          | constKw =>
              cases v <;>
                exact (constant_deepens hLevels _).map _
          | typeKw =>
              cases v <;>
                exact (typeAlias_deepens hLevels _).map _
          | _ => cases v <;> exact .refl _
      | _ => cases v <;> exact .refl _

/-
  By induction on the levels, a definition with more of them
  gives the same.
-/
theorem definition_deepens
    (hLevels : n ≤ m) :
    (definition n).Deepens (definition m) := by
  induction n generalizing m with
  | zero => exact .ofTooDeep _
  | succ n ih =>
      cases m with
      | zero => omega
      | succ m =>
          have hLess : n ≤ m := by omega
          exact definitionOf_deepens hLess (ih hLess)

/- So do the definitions up to the end of a text. -/
theorem definitions_deepens
    (hLevels : n ≤ m) :
    (definitions n).Deepens (definitions m) := by
  refine (Deepens.collect ?_).before _
  refine .behind peek fun next => ?_
  cases next with
  | none => exact .refl _
  | some kind => exact (definition_deepens hLevels).map _

end Parser

end FeSyntax
