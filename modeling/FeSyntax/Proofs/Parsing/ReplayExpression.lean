import FeSyntax.Parse.Expression
import FeSyntax.Proofs.Parsing.Replay
import FeSyntax.Proofs.Syntax.Shape

/-
  This file proves that types, patterns, expressions and
  blocks are read in the same way in other places.  A block
  has its closing brace; behind all others, the front of
  what follows is looked at.

  Key theorems include:
    * `Parser.ty_replays`
    * `Parser.pattern_replays`
    * `Parser.expression_replays`
    * `Parser.block_replays`
-/

namespace FeSyntax

open Placed

variable {r : Relocation}

------------------------------------------------------------
-- Names And Literals
------------------------------------------------------------

instance : Placed Identifier :=
  ⟨fun r => Identifier.mapSpans r.span⟩

instance : Placed Path :=
  ⟨fun r => Path.mapSpans r.span⟩

instance : Placed Literal :=
  ⟨fun r => Literal.mapSpans r.span⟩

namespace Parser

theorem identifier_replays
    {looks : Bool} :
    identifier.Replays r true looks identifier :=
  .accept_bind fun _ _ => .pure rfl

theorem path_replays :
    path.Replays r true true path := by
  refine identifier_replays.next fun first =>
    (Replays.itemsAfter identifier_replays).last
      fun more => .pure ?_
  simp [move, Path.mapSpans, r.span_through]

/- Type parameters are missing only where no `<` follows. -/
theorem typeParams_replays :
    typeParams.Replays r false true typeParams :=
  .punct?_bind (.inl rfl) (.pure rfl) fun _ =>
    (Replays.commaItems identifier_replays).before fun _ =>
      (Replays.punct _).last fun _ => .pure rfl

/- A literal is read again in any place. -/
theorem literal_replays
    {looks : Bool}
    (what : Expectation) :
    (literal what).Replays r true looks (literal what) :=
  .accept_bind fun _ _ => .pure rfl

end Parser

------------------------------------------------------------
-- Types
------------------------------------------------------------

instance : Placed Ty :=
  ⟨fun r => Ty.mapSpans r.span⟩

namespace Parser

/- A type is read again if the types inside it are. -/
theorem tyOf_replays
    {inner inner' : Parser Ty}
    (hInner : inner.Replays r true true inner') :
    (tyOf inner).Replays r true true (tyOf inner') := by
  have hReference :
      (referenceTy inner).Replays r true true
        (referenceTy inner') := by
    refine (Replays.punct _).first fun start =>
      (Replays.keyword? _).before fun isMut =>
        hInner.last fun ty => .pure ?_
    simp [move, Ty.mapSpans, r.span_through]
  have hTuple :
      (tupleTy inner).Replays r true true
        (tupleTy inner') := by
    refine (Replays.punct _).first fun start =>
      hInner.commaList.loose.last fun parts => .pure ?_
    simp [move, Ty.mapSpans, r.span_through]
  refine .peek_bind fun next => ?_
  cases next with
  | none => exact .fail _
  | some kind =>
      cases kind with
      | primitive p =>
          exact .accept_bind fun _ _ => .pure rfl
      | punct mark =>
          cases mark with
          | ampersand => exact hReference
          | leftParen => exact hTuple
          | _ => exact .fail _
      | keyword k => exact path_replays.map fun _ => rfl
      | identifier name =>
          exact path_replays.map fun _ => rfl
      | bool b => exact path_replays.map fun _ => rfl
      | _ => exact .fail _

/- Types are read again at every level. -/
theorem ty_replays
    (n : Nat) :
    (ty n).Replays r true true (ty n) := by
  induction n with
  | zero => exact .fail _
  | succ n ih => exact tyOf_replays ih

end Parser

------------------------------------------------------------
-- Patterns
------------------------------------------------------------

instance : Placed Pattern :=
  ⟨fun r => Pattern.mapSpans r.span⟩

namespace Parser

/-
  A named pattern is one name only where no parenthesis
  follows.
-/
theorem namedPattern_replays
    {inner inner' : Parser Pattern}
    (hInner : inner.Replays r true true inner') :
    (namedPattern inner).Replays r true true
      (namedPattern inner') := by
  refine path_replays.next fun p =>
    .punct?_bind (.inl rfl) ?_ fun _ =>
      hInner.commaList.loose.last fun parts => .pure ?_
  · rcases p with ⟨_ | ⟨i, _ | ⟨j, is⟩⟩, s⟩
    · exact .fail _
    · exact .pure rfl
    · exact .fail _
  · simp [move, Pattern.mapSpans, r.span_through]

/- A pattern is read again if the patterns inside it are. -/
theorem patternOf_replays
    {inner inner' : Parser Pattern}
    (hInner : inner.Replays r true true inner') :
    (patternOf inner).Replays r true true
      (patternOf inner') := by
  have hNamed := namedPattern_replays hInner
  refine .peek_bind fun next => ?_
  cases next with
  | none => exact .fail _
  | some kind =>
      cases kind with
      | keyword k =>
          cases k with
          | underscore =>
              exact (Replays.keyword _).last fun _ =>
                .pure rfl
          | _ => exact hNamed
      | primitive p => exact hNamed
      | identifier name => exact hNamed
      | number value suffix =>
          exact (literal_replays _).map fun _ => rfl
      | bool b => exact (literal_replays _).map fun _ => rfl
      | string s =>
          exact (literal_replays _).map fun _ => rfl
      | _ => exact .fail _

/- Patterns are read again at every level. -/
theorem pattern_replays
    (n : Nat) :
    (pattern n).Replays r true true (pattern n) := by
  induction n with
  | zero => exact .fail _
  | succ n ih => exact patternOf_replays ih

end Parser

------------------------------------------------------------
-- Parts Of Expressions
------------------------------------------------------------

instance : Placed Expression :=
  ⟨fun r => Expression.mapSpans r.span⟩

instance : Placed Block :=
  ⟨fun r => Block.mapSpans r.span⟩

instance : Placed Statement :=
  ⟨fun r => Statement.mapSpans r.span⟩

instance : Placed LetBinding :=
  ⟨fun r => LetBinding.mapSpans r.span⟩

instance : Placed Match :=
  ⟨fun r => Match.mapSpans r.span⟩

instance : Placed MatchArm :=
  ⟨fun r => MatchArm.mapSpans r.span⟩

namespace Parser

section Parts

variable {inner inner' : Parser Expression}
variable {innerTy innerTy' : Parser Ty}
variable {innerPattern innerPattern' : Parser Pattern}
variable (hInner : inner.Replays r true true inner')
variable (hTy : innerTy.Replays r true true innerTy')
variable (hPattern :
  innerPattern.Replays r true true innerPattern')

/-
  A match is read again up to its brace, whatever follows
  that.
-/
include hInner hPattern in
theorem matchOf_replays :
    (matchOf inner innerPattern).Replays r true false
      (matchOf inner' innerPattern') := by
  have hArm :
      (matchArm inner innerPattern).Replays r true true
        (matchArm inner' innerPattern') := by
    refine hPattern.before fun p =>
      (Replays.punct _).first fun _ => hInner.next fun e =>
        (Replays.punct? _).last fun mark => .pure ?_
    simp [move, MatchArm.mapSpans, r.span_through,
      Option.getD_map]
  refine (Replays.keyword _).first fun start =>
    hInner.before fun e => (Replays.punct _).first fun _ =>
      hArm.itemsUntil.last fun parts => .pure ?_
  simp [move, Match.mapSpans, r.span_through]

/- A binding is read again up to its semicolon. -/
include hInner hTy in
theorem letBinding_replays :
    (letBinding inner innerTy).Replays r true false
      (letBinding inner' innerTy') := by
  have hColon :
      (do let _ ← punct .colon; innerTy).Replays r true true
        (do let _ ← punct .colon; innerTy') :=
    (Replays.punct _).first fun _ => hTy
  have hEquals :
      (do let _ ← punct .equals; inner).Replays r true true
        (do let _ ← punct .equals; inner') :=
    (Replays.punct _).first fun _ => hInner
  refine (Replays.keyword _).first fun start =>
    (Replays.keyword? _).before fun isMut =>
      identifier_replays.first fun name =>
        (Replays.whenAt hColon).before fun ty =>
          (Replays.whenAt hEquals).before fun value =>
            (Replays.punct _).last fun stop => .pure ?_
  simp [move, LetBinding.mapSpans, r.span_through]

include hInner in
/- A statement passes its semicolon, the end its brace. -/
theorem expressionPart_replays :
    (expressionPart inner).Replays r true false
      (expressionPart inner') := by
  refine hInner.before fun e =>
    .punct?_bind (.inr rfl)
      (.punct?_bind (.inr rfl) (.fail _) fun stop => .pure rfl)
      fun stop => .pure ?_
  simp [move, Statement.mapSpans, r.span_through]

/- A block is read again up to its brace, part by part. -/
include hInner hTy in
theorem blockOf_replays :
    (blockOf inner innerTy).Replays r true false
      (blockOf inner' innerTy') := by
  have hPart :
      (blockPart inner innerTy).Replays r true false
        (blockPart inner' innerTy') := by
    have hOther := expressionPart_replays hInner
    refine .peek_bind fun next => ?_
    cases next with
    | none => exact hOther
    | some kind =>
        cases kind with
        | punct mark =>
            cases mark with
            | rightBrace =>
                exact (Replays.punct _).last fun _ => .pure rfl
            | _ => exact hOther
        | keyword k =>
            cases k with
            | letKw =>
                exact (letBinding_replays hInner hTy).map
                  fun _ => rfl
            | _ => exact hOther
        | _ => exact hOther
  refine (Replays.punct _).first fun start =>
    ((StepReplays.ofReplays hPart).collect (.inr rfl)).last
      fun parts => .pure ?_
  simp [move, Block.mapSpans, r.span_through]

/-
  An expression may be a path, so what follows may matter.
-/
include hInner hPattern in
theorem expressionOf_replays
    {block block' : Parser Block}
    (hBlock : block.Replays r true false block') :
    (expressionOf inner block innerPattern).Replays r true
      true (expressionOf inner' block' innerPattern') := by
  have hMatch := matchOf_replays hInner hPattern
  refine .peek_bind fun next => ?_
  cases next with
  | none => exact .fail _
  | some kind =>
      cases kind with
      | punct mark =>
          cases mark with
          | leftBrace => exact hBlock.loose.map fun _ => rfl
          | _ => exact .fail _
      | keyword k =>
          cases k with
          | matchKw => exact hMatch.loose.map fun _ => rfl
          | _ => exact path_replays.map fun _ => rfl
      | primitive p => exact path_replays.map fun _ => rfl
      | identifier name =>
          exact path_replays.map fun _ => rfl
      | number value suffix =>
          exact (literal_replays _).map fun _ => rfl
      | bool b => exact (literal_replays _).map fun _ => rfl
      | string s =>
          exact (literal_replays _).map fun _ => rfl
      | _ => exact .fail _

end Parts

------------------------------------------------------------
-- Expressions And Blocks
------------------------------------------------------------

/- Expressions and blocks contain each other. -/
theorem expression_replays_and_block_replays
    (n : Nat) :
    (expression n).Replays r true true (expression n) ∧
      (block n).Replays r true false (block n) := by
  induction n with
  | zero =>
      rw [expression, block]
      exact ⟨.fail _, .fail _⟩
  | succ n ih =>
      rcases ih with ⟨hExpression, hBlock⟩
      rw [expression, block]
      exact
        ⟨expressionOf_replays hExpression
            (pattern_replays n) hBlock,
          blockOf_replays hExpression (ty_replays n)⟩

theorem expression_replays
    (n : Nat) :
    (expression n).Replays r true true (expression n) :=
  (expression_replays_and_block_replays n).1

theorem block_replays
    (n : Nat) :
    (block n).Replays r true false (block n) :=
  (expression_replays_and_block_replays n).2

end Parser

end FeSyntax
