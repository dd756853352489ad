import FeSyntax.Proofs.Parsing.AdvanceDefinition

/-
  This file proves at which tokens a parser of the grammar
  runs its parts.  Two variants of it whose parts do the
  same behind a token of `ts` do the same at `ts`, so no
  part is run before a token was passed.  The one exception
  is a block, which an expression runs at its own tokens.

  Key definitions include:
    * `Parser.AgreesBehind`

  Key theorems include:
    * `Parser.AgreesBehind.bind`
    * `Parser.AgreesBehind.collect`
    * `Parser.tyOf_agreesBehind`
    * `Parser.patternOf_agreesBehind`
    * `Parser.expressionOf_agreesBehind`
    * `Parser.blockOf_agreesBehind`
-/

namespace FeSyntax

namespace Parser

variable {α β : Type}
variable {n m least levels : Nat}
variable {ts : List Token}

/-
  The second parser does what the first one does wherever at
  least `n` of the tokens `ts` have been passed.
-/
def AgreesBehind
    (n : Nat)
    (ts : List Token)
    (p q : Parser α) : Prop :=
  ∀ us, Advances n ts us → q us = p us

------------------------------------------------------------
-- Sequences And Repetitions
------------------------------------------------------------

namespace AgreesBehind

theorem refl
    (p : Parser α) :
    p.AgreesBehind n ts p :=
  fun _ _ => rfl

/- Who agrees behind some tokens agrees behind more. -/
theorem mono
    {p q : Parser α}
    (hSame : p.AgreesBehind n ts q)
    (hLess : n ≤ m) :
    p.AgreesBehind m ts q :=
  fun us hUs => hSame us (hUs.mono hLess)

/- What comes next starts behind what was passed. -/
theorem bind
    {p q : Parser α}
    {f g : α → Parser β}
    (hPasses : p.Passes least levels)
    (hParser : p.AgreesBehind n ts q)
    (hNext :
      ∀ a, (f a).AgreesBehind (n + least) ts (g a)) :
    (p >>= f).AgreesBehind n ts (q >>= g) := by
  intro us hUs
  rw [bind_eq_andThen, bind_eq_andThen, andThen, andThen,
    hParser us hUs]
  cases hRun : p us with
  | done a mid =>
      exact hNext a mid (hUs.trans (hPasses.done hRun))
  | stopped fault mid => rfl

/- The tokens that the first one passes are not needed. -/
theorem next
    {p q : Parser α}
    {f g : α → Parser β}
    (hPasses : p.Passes least levels)
    (hParser : p.AgreesBehind n ts q)
    (hNext : ∀ a, (f a).AgreesBehind n ts (g a)) :
    (p >>= f).AgreesBehind n ts (q >>= g) :=
  hParser.bind hPasses fun a =>
    (hNext a).mono (Nat.le_add_right n least)

/- What comes before the parts is the same. -/
theorem after
    {p : Parser α}
    {f g : α → Parser β}
    (hPasses : p.Passes least 0)
    (hNext : ∀ a, (f a).AgreesBehind n ts (g a)) :
    (p >>= f).AgreesBehind n ts (p >>= g) :=
  (refl p).next hPasses hNext

/- A token in front is one more that has been passed. -/
theorem behind
    {p : Parser α}
    {f g : α → Parser β}
    (hPasses : p.Passes 1 0)
    (hNext : ∀ a, (f a).AgreesBehind (n + 1) ts (g a)) :
    (p >>= f).AgreesBehind n ts (p >>= g) :=
  (refl p).bind hPasses hNext

/- What comes after the parts is the same. -/
theorem before
    {p q : Parser α}
    (hParser : p.AgreesBehind n ts q)
    (f : α → Parser β) :
    (p >>= f).AgreesBehind n ts (q >>= f) := by
  intro us hUs
  rw [bind_eq_andThen, bind_eq_andThen, andThen, andThen,
    hParser us hUs]

/- A function of the value changes nothing about it. -/
theorem map
    {p q : Parser α}
    (f : α → β)
    (hParser : p.AgreesBehind n ts q) :
    (f <$> p).AgreesBehind n ts (f <$> q) :=
  hParser.before fun a => pure (f a)

/-
  A part that may be missing is led to at the same tokens.
-/
theorem whenAt
    {p q : Parser α}
    (kind : TokenKind)
    (hPart : p.AgreesBehind n ts q) :
    (whenAt kind p).AgreesBehind n ts
      (Parser.whenAt kind q) := by
  have hAt : (isAt kind).Passes 0 0 :=
    Passes.peek.first fun _ => .pure _
  refine after hAt fun isThere => ?_
  cases isThere with
  | false => exact refl _
  | true => exact hPart.map some

/-
  The steps of a repetition only go on, so they agree behind
  tokens that their first one has left.
-/
theorem collectWithin
    {missing : Expectation}
    {step step' : Parser (α ⊕ β)}
    (hPasses : step.Passes least levels)
    (hStep : step.AgreesBehind n ts step')
    (found : List α)
    (fuel : List Token) :
    (collectWithin missing step found fuel).AgreesBehind n
      ts
      (Parser.collectWithin missing step' found fuel) := by
  -- The recursion is on the fuel, with any items found.
  induction fuel generalizing found with
  | nil =>
      rw [collectWithin_nil, collectWithin_nil]
      exact hStep.before _
  | cons t fuel ih =>
      rw [collectWithin_cons, collectWithin_cons]
      refine hStep.next hPasses fun part => ?_
      cases part with
      | inl a => exact ih (a :: found)
      | inr b => exact refl _

theorem collect
    {missing : Expectation}
    {step step' : Parser (α ⊕ β)}
    (hPasses : step.Passes least levels)
    (hStep : step.AgreesBehind n ts step') :
    (collect missing step).AgreesBehind n ts
      (Parser.collect missing step') :=
  fun us hUs => collectWithin hPasses hStep [] us us hUs

------------------------------------------------------------
-- Lists
------------------------------------------------------------

section Lists

variable {item item' : Parser α}
variable (hPasses : item.Passes 1 levels)
variable (hItem : item.AgreesBehind n ts item')

include hPasses hItem

/- Items up to a mark agree if the items do. -/
theorem itemsUntil
    (close : Punct) :
    (itemsUntil close item).AgreesBehind n ts
      (Parser.itemsUntil close item') := by
  have hStart := hPasses.weaken (Nat.le_refl levels)
  refine collect (hStart.untilStep close)
    (after (.punct? close) fun closed => ?_)
  cases closed with
  | some span => exact refl _
  | none => exact hItem.map Sum.inl

theorem itemsAfter
    (mark : Punct) :
    (itemsAfter mark item).AgreesBehind n ts
      (Parser.itemsAfter mark item') := by
  have hStart := hPasses.weaken (Nat.le_refl levels)
  refine before
    (collect (hStart.afterStep mark)
      (after (.punct? mark) fun found => ?_)) _
  cases found with
  | some span => exact hItem.map Sum.inl
  | none => exact refl _

theorem commaItems :
    (commaItems item).AgreesBehind n ts
      (Parser.commaItems item') :=
  hItem.next hPasses fun _ =>
    (itemsAfter hPasses hItem .comma).before _

/- So do the items of a list that is closed by a mark. -/
theorem commaList
    (close : Punct) :
    (commaList close item).AgreesBehind n ts
      (Parser.commaList close item') := by
  refine after (.punct? close) fun closed => ?_
  cases closed with
  | some span => exact refl _
  | none => exact (commaItems hPasses hItem).before _

end Lists

end AgreesBehind

------------------------------------------------------------
-- Types And Patterns
------------------------------------------------------------

/-
  The types inside a type start behind one of its tokens.
-/
theorem tyOf_agreesBehind
    {inner inner' : Parser Ty}
    (hPasses : inner.Passes 1 levels)
    (hInner : inner.AgreesBehind (n + 1) ts inner') :
    (tyOf inner).AgreesBehind n ts (tyOf inner') := by
  have hReference :
      (referenceTy inner).AgreesBehind n ts
        (referenceTy inner') :=
    .behind (.punct _) fun _ =>
      .after (.keyword? _) fun _ => hInner.before _
  have hTuple :
      (tupleTy inner).AgreesBehind n ts
        (tupleTy inner') :=
    .behind (.punct _) fun _ =>
      (hInner.commaList hPasses .rightParen).before _
  refine .after .peek fun next => ?_
  cases next with
  | none => exact .refl _
  | some kind =>
      cases kind with
      | punct mark =>
          cases mark with
          | ampersand => exact hReference
          | leftParen => exact hTuple
          | _ => exact .refl _
      | _ => exact .refl _

/- So do the patterns inside a pattern. -/
theorem patternOf_agreesBehind
    {inner inner' : Parser Pattern}
    (hPasses : inner.Passes 1 levels)
    (hInner : inner.AgreesBehind (n + 1) ts inner') :
    (patternOf inner).AgreesBehind n ts
      (patternOf inner') := by
  have hNamed :
      (namedPattern inner).AgreesBehind n ts
        (namedPattern inner') := by
    refine .behind .path fun p =>
      .after (.punct? _) fun opened => ?_
    cases opened with
    | none => exact .refl _
    | some span =>
        exact
          (hInner.commaList hPasses .rightParen).before _
  refine .after .peek fun next => ?_
  cases next with
  | none => exact .refl _
  | some kind =>
      cases kind with
      | keyword k =>
          cases k with
          | underscore => exact .refl _
          | _ => exact hNamed
      | primitive p => exact hNamed
      | identifier name => exact hNamed
      | _ => exact .refl _

------------------------------------------------------------
-- Expressions And Blocks
------------------------------------------------------------

section Expressions

variable {inner inner' : Parser Expression}
variable {innerBlock innerBlock' : Parser Block}
variable {innerTy innerTy' : Parser Ty}
variable {innerPattern innerPattern' : Parser Pattern}
variable (hPasses : inner.Passes 1 (levels - 1))
variable (hTyPasses : innerTy.Passes 1 levels)
variable (hPatternPasses : innerPattern.Passes 1 levels)
variable (hInner : inner.AgreesBehind (n + 1) ts inner')
variable (hBlock : innerBlock.AgreesBehind n ts innerBlock')
variable (hTy : innerTy.AgreesBehind (n + 1) ts innerTy')
variable
  (hPattern :
    innerPattern.AgreesBehind (n + 1) ts innerPattern')

/- The parts of a match start behind its keyword. -/
include hPasses hPatternPasses hInner hPattern in
theorem matchOf_agreesBehind :
    (matchOf inner innerPattern).AgreesBehind n ts
      (matchOf inner' innerPattern') := by
  have hArm :
      (matchArm inner innerPattern).AgreesBehind (n + 1) ts
        (matchArm inner' innerPattern') :=
    hPattern.next hPatternPasses fun _ =>
      .after (.punct _) fun _ => hInner.before _
  have hArmPasses := matchArm_passes hPasses hPatternPasses
  exact .behind (.keyword _) fun _ =>
    hInner.next hPasses fun _ => .after (.punct _) fun _ =>
      (hArm.itemsUntil hArmPasses .rightBrace).before _

/-
  The type and the value of a binding start behind its
  keyword.
-/
include hTyPasses hInner hTy in
theorem letBinding_agreesBehind :
    (letBinding inner innerTy).AgreesBehind n ts
      (letBinding inner' innerTy') := by
  have hColon :
      (do let _ ← punct .colon; innerTy).AgreesBehind
        (n + 1) ts (do let _ ← punct .colon; innerTy') :=
    .after (.punct _) fun _ => hTy
  have hEquals :
      (do let _ ← punct .equals; inner).AgreesBehind
        (n + 1) ts (do let _ ← punct .equals; inner') :=
    .after (.punct _) fun _ => hInner
  have hColonPasses :
      (do let _ ← punct .colon; innerTy).Passes 1 0 :=
    (Passes.punct .colon).behind fun _ =>
      hTyPasses.weaken (Nat.zero_le _)
  exact .behind (.keyword _) fun _ =>
    .after (.keyword? _) fun _ =>
      .after .identifier fun _ =>
        (hColon.whenAt _).next (hColonPasses.whenAt _)
          fun _ => (hEquals.whenAt _).before _

/- The parts of a block start behind its brace. -/
include hPasses hTyPasses hInner hTy in
theorem blockOf_agreesBehind :
    (blockOf inner innerTy).AgreesBehind n ts
      (blockOf inner' innerTy') := by
  have hPart :
      (expressionPart inner).AgreesBehind (n + 1) ts
        (expressionPart inner') :=
    hInner.before _
  have hLet :
      (letBinding inner innerTy).AgreesBehind (n + 1) ts
        (letBinding inner' innerTy') :=
    letBinding_agreesBehind hTyPasses
      (hInner.mono (Nat.le_succ _))
      (hTy.mono (Nat.le_succ _))
  refine .behind (.punct _) fun _ =>
    (AgreesBehind.collect
      (blockPart_passes hPasses hTyPasses) ?_).before _
  refine .after .peek fun next => ?_
  cases next with
  | none => exact hPart
  | some kind =>
      cases kind with
      | punct mark =>
          cases mark with
          | rightBrace => exact .refl _
          | _ => exact hPart
      | keyword k =>
          cases k with
          | letKw => exact hLet.map _
          | _ => exact hPart
      | _ => exact hPart

/- A block starts where the expression does. -/
include hPasses hPatternPasses hInner hBlock hPattern in
theorem expressionOf_agreesBehind :
    (expressionOf inner innerBlock
      innerPattern).AgreesBehind n ts
        (expressionOf inner' innerBlock'
          innerPattern') := by
  have hMatch :=
    matchOf_agreesBehind hPasses hPatternPasses hInner
      hPattern
  refine .after .peek fun next => ?_
  cases next with
  | none => exact .refl _
  | some kind =>
      cases kind with
      | punct mark =>
          cases mark with
          | leftBrace => exact hBlock.map _
          | _ => exact .refl _
      | keyword k =>
          cases k with
          | matchKw => exact hMatch.map _
          | _ => exact .refl _
      | _ => exact .refl _

end Expressions

end Parser

end FeSyntax
