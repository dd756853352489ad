import FeSyntax.Proofs.Parsing.Dispatch
import FeSyntax.Proofs.Parsing.Ownership

/-
  This file proves that types, patterns, expressions and
  blocks own the tokens that their parsers pass, and so do
  all nodes in them.

  Key theorems include:
    * `Parser.ty_uses`
    * `Parser.pattern_uses`
    * `Parser.expression_uses`
    * `Parser.block_uses`
-/

namespace FeSyntax

------------------------------------------------------------
-- Outlines Of Lists
------------------------------------------------------------

/- The outlines of a list are those of its types in turn. -/
@[simp] theorem Ty.outlineAll_eq
    (tys : List Ty) :
    outlineAll tys = tys.map outline := by
  induction tys with
  | nil => rfl
  | cons ty tys ih => simp [outlineAll, ih]

/-
  The outlines of a list are those of its patterns in turn.
-/
@[simp] theorem Pattern.outlineAll_eq
    (ps : List Pattern) :
    outlineAll ps = ps.map outline := by
  induction ps with
  | nil => rfl
  | cons p ps ih => simp [outlineAll, ih]

/-
  The outlines of a list are those of its statements in
  turn.
-/
@[simp] theorem Block.outlineStatements_eq
    (ss : List Statement) :
    outlineStatements ss = ss.map Statement.outline := by
  induction ss with
  | nil => rfl
  | cons s ss ih => simp [outlineStatements, ih]

/- The outlines of a list are those of its arms in turn. -/
@[simp] theorem Match.outlineArms_eq
    (arms : List MatchArm) :
    outlineArms arms = arms.map MatchArm.outline := by
  induction arms with
  | nil => rfl
  | cons a arms ih => simp [outlineArms, ih]

/-
  An expression that may be missing has one outline or none.
-/
@[simp] theorem Expression.outlineOption_eq
    (e : Option Expression) :
    outlineOption e = (e.map outline).toList := by
  cases e <;> rfl

------------------------------------------------------------
-- Spans Of Owners
------------------------------------------------------------

section Owners

variable {run : List Token}

/-
  The span of a type goes around the tokens that it owns.
-/
theorem Ty.encloses_of_owns
    {ty : Ty}
    (hOwns : ty.outline.Owns run) :
    ty.span.Encloses run := by
  have hSpan := hOwns.encloses
  cases ty <;> exact hSpan

/-
  The span of a pattern goes around the tokens that it owns.
-/
theorem Pattern.encloses_of_owns
    {p : Pattern}
    (hOwns : p.outline.Owns run) :
    p.span.Encloses run := by
  have hSpan := hOwns.encloses
  cases p <;> exact hSpan

/-
  The span of an expression goes around the tokens that it
  owns.
-/
theorem Expression.encloses_of_owns
    {e : Expression}
    (hOwns : e.outline.Owns run) :
    e.span.Encloses run := by
  have hSpan := hOwns.encloses
  cases e <;> exact hSpan

/-
  The span of a block goes around the tokens that it owns.
-/
theorem Block.encloses_of_owns
    {b : Block}
    (hOwns : b.outline.Owns run) :
    b.span.Encloses run := by
  have hSpan := hOwns.encloses
  cases b
  exact hSpan

end Owners

namespace Parser

------------------------------------------------------------
-- Types
------------------------------------------------------------

section Types

variable {inner : Parser Ty}
variable
  (hInner : inner.Uses fun ty run => ty.outline.Owns run)

/- A primitive type is one token, which it owns. -/
theorem primitiveTy_uses :
    primitiveTy.Uses fun ty run => ty.outline.Owns run := by
  refine Uses.accept.bind fun part run hToken => ?_
  rcases part with ⟨kind, span⟩
  rcases hToken with ⟨t, rfl, -, rfl⟩
  exact .pure (.of_parts (Span.encloses_single t) rfl .nil)

include hInner

/-
  A reference owns its mark, a `mut` and the tokens of the
  type behind them.
-/
theorem referenceTy_uses :
    (referenceTy inner).Uses fun ty run =>
      ty.outline.Owns run := by
  refine (Uses.punct .ampersand).bind ?_
  intro start r hStart
  refine (Uses.keyword .mutKw).whenAt.bind fun m r' _ => ?_
  refine hInner.bind fun ty r'' hTy => .pure ?_
  rw [List.append_nil]
  have hSpan := Ty.encloses_of_owns hTy
  refine .of_parts ?_ rfl ?_
  · exact .through (hStart.starts.append _)
      ((hSpan.stops.skip r').skip r)
  · exact ((Outline.OwnsAll.single hTy).skip r').skip r

/-
  A tuple owns its parentheses and commas besides its
  elements.
-/
theorem tupleTy_uses :
    (tupleTy inner).Uses fun ty run =>
      ty.outline.Owns run := by
  refine (Uses.punct .leftParen).bind ?_
  intro start r hStart
  refine (Uses.commaList hInner .rightParen).bind
    fun parts r' hElements => .pure ?_
  rw [List.append_nil]
  refine .of_parts ?_ rfl ?_
  · exact .through (hStart.starts.append _)
      (hElements.2.skip r)
  · rw [Ty.outlineAll_eq]
    exact hElements.1.skip r

/- Any type owns its tokens if the types inside it do. -/
theorem tyOf_uses :
    (tyOf inner).Uses fun ty run =>
      ty.outline.Owns run := by
  have hWord :
      ∀ kind : TokenKind,
        (if kind.word?.isSome then Ty.path <$> path
          else fail (.expected .type)).Uses fun ty run =>
            ty.outline.Owns run := by
    intro kind
    split
    · refine .map (Uses.path.mono fun p run hPath => ?_)
      exact .of_parts hPath.1.encloses rfl (.single hPath.1)
    · exact .fail _
  refine .peek_bind fun next => ?_
  cases next with
  | none => exact .fail _
  | some kind =>
      cases kind with
      | primitive p => exact primitiveTy_uses
      | punct mark =>
          cases mark with
          | ampersand => exact referenceTy_uses hInner
          | leftParen => exact tupleTy_uses hInner
          | _ => exact hWord _
      | _ => exact hWord _

end Types

theorem ty_uses
    (n : Nat) :
    (ty n).Uses fun ty run => ty.outline.Owns run := by
  induction n with
  | zero => exact .fail _
  | succ n ih => exact tyOf_uses ih

------------------------------------------------------------
-- Patterns
------------------------------------------------------------

section Patterns

variable {inner : Parser Pattern}
variable
  (hInner : inner.Uses fun p run => p.outline.Owns run)

theorem wildcardPattern_uses :
    wildcardPattern.Uses fun p run =>
      p.outline.Owns run := by
  refine (Uses.keyword .underscore).bind
    fun span run hSpan => .pure ?_
  rw [List.append_nil]
  exact .of_parts hSpan rfl .nil

include hInner

/-
  A named pattern owns its path and the patterns in its
  parentheses.
-/
theorem namedPattern_uses :
    (namedPattern inner).Uses fun p run =>
      p.outline.Owns run := by
  refine Uses.path.bind fun path r hBoth => ?_
  rcases hBoth with ⟨hPath, hSingle⟩
  refine .punct?_bind ?_ fun start r' _ => ?_
  · rcases path with ⟨segments, span⟩
    rcases segments with _ | ⟨name, _ | _⟩
    · exact .fail _
    · refine .pure ?_
      have hName := hSingle name rfl
      rw [List.append_nil]
      exact .of_parts hName.encloses rfl (.single hName)
    · exact .fail _
  · refine (Uses.commaList hInner .rightParen).bind
      fun parts r'' hElements => .pure ?_
    rw [List.append_nil]
    refine .of_parts ?_ rfl ?_
    · exact .through (hPath.encloses.starts.append _)
        ((hElements.2.skip r').skip r)
    · rw [Pattern.outlineAll_eq]
      exact .first hPath (hElements.1.skip r')

/-
  Any pattern owns its tokens if the patterns inside it do.
-/
theorem patternOf_uses :
    (patternOf inner).Uses fun p run =>
      p.outline.Owns run := by
  have hOther :
      ∀ kind : TokenKind,
        (if kind.literal?.isSome then
            Pattern.literal <$> literal .pattern
          else if kind.word?.isSome then namedPattern inner
          else fail (.expected .pattern)).Uses fun p run =>
            p.outline.Owns run := by
    intro kind
    split
    · refine .map ((Uses.literal _).mono fun l run hOwns => ?_)
      exact .of_parts hOwns.encloses rfl (.single hOwns)
    · split
      · exact namedPattern_uses hInner
      · exact .fail _
  refine .peek_bind fun next => ?_
  cases next with
  | none => exact .fail _
  | some kind =>
      cases kind with
      | keyword k =>
          cases k with
          | underscore => exact wildcardPattern_uses
          | _ => exact hOther _
      | _ => exact hOther _

end Patterns

theorem pattern_uses
    (n : Nat) :
    (pattern n).Uses fun p run => p.outline.Owns run := by
  induction n with
  | zero => exact .fail _
  | succ n ih => exact patternOf_uses ih

------------------------------------------------------------
-- Expressions And Blocks
------------------------------------------------------------

section Expressions

variable {inner : Parser Expression}
variable {innerBlock : Parser Block}
variable {innerTy : Parser Ty}
variable {innerPattern : Parser Pattern}
variable
  (hInner : inner.Uses fun e run => e.outline.Owns run)
variable
  (hBlock : innerBlock.Uses fun b run => b.outline.Owns run)
variable
  (hTy : innerTy.Uses fun ty run => ty.outline.Owns run)
variable
  (hPattern :
    innerPattern.Uses fun p run => p.outline.Owns run)

/- An arm owns its pattern, the arrow and its body. -/
include hInner hPattern in
theorem matchArm_uses :
    (matchArm inner innerPattern).Uses fun a run =>
      a.outline.Owns run := by
  refine hPattern.bind fun pattern r hOwns => ?_
  refine (Uses.punct .fatArrow).bind fun _ r' _ => ?_
  refine hInner.bind fun value r'' hValue => ?_
  have hStarts := (Pattern.encloses_of_owns hOwns).starts
  have hStops := (Expression.encloses_of_owns hValue).stops
  have hChildren :
      ∀ more, Outline.OwnsAll
        [pattern.outline, value.outline]
        (r ++ (r' ++ (r'' ++ more))) :=
    fun more => .first hOwns (.skip (.first hValue .nil) r')
  refine .punct?_bind (.pure ?_) fun span more hSpan =>
    .pure ?_
  · refine .of_parts (.through (hStarts.append _) ?_) rfl
      (hChildren _)
    rw [List.append_nil]
    exact (hStops.skip r').skip r
  · refine .of_parts (.through (hStarts.append _) ?_) rfl
      (hChildren _)
    rw [List.append_nil]
    exact ((hSpan.stops.skip r'').skip r').skip r

/-
  A match has its subject and its arms as parts, and its
  span goes around all of its tokens.
-/
include hInner hPattern in
theorem matchOf_uses :
    (matchOf inner innerPattern).Uses fun m run =>
      m.span.Encloses run ∧
        Outline.OwnsAll m.outlineParts run := by
  refine (Uses.keyword .matchKw).bind ?_
  intro start r hStart
  refine hInner.bind fun value r' hValue => ?_
  refine (Uses.punct .leftBrace).bind fun _ r'' _ => ?_
  refine (Uses.itemsUntil (matchArm_uses hInner hPattern)
    .rightBrace).bind fun parts r''' hArms => .pure ?_
  rw [List.append_nil]
  constructor
  · exact .through (hStart.starts.append _)
      (((hArms.2.skip r'').skip r').skip r)
  · rw [Match.outlineParts, Match.outlineArms_eq]
    exact .skip (.first hValue (hArms.1.skip r'')) r

/-
  A binding has its name, its type and its value as parts.
-/
include hInner hTy in
theorem letBinding_uses :
    (letBinding inner innerTy).Uses fun b run =>
      b.span.Encloses run ∧
        Outline.OwnsAll b.outlineParts run := by
  refine (Uses.keyword .letKw).bind fun start r hStart => ?_
  refine (Uses.keyword .mutKw).whenAt.bind fun m r1 _ => ?_
  refine Uses.identifier.bind fun name r2 hName => ?_
  refine (Uses.behind (.punct .colon) hTy).bind
    fun ty r3 hOptionalTy => ?_
  refine (Uses.behind (.punct .equals) hInner).bind
    fun value r4 hValue => ?_
  refine (Uses.punct .semicolon).bind
    fun stop r5 hStop => .pure ?_
  rw [List.append_nil]
  constructor
  · exact .through (hStart.starts.append _)
      (((((hStop.stops.skip r4).skip r3).skip r2).skip
        r1).skip r)
  · rw [LetBinding.outlineParts, Expression.outlineOption_eq]
    exact .skip
      (.skip
        (.first hName
          (hOptionalTy.append (hValue.extend r5))) r1) r

/- What a part of a block owns: a statement, or the end. -/
def OwnsPart
    (part : Statement ⊕ BlockEnd)
    (run : List Token) : Prop :=
  Sum.elim (fun s => s.outline.Owns run)
    (fun last =>
      Outline.OwnsAll
          (last.1.map Expression.outline).toList run ∧
        last.2.StopsWith run)
    part

/-
  An expression in a block owns its tokens, with the
  semicolon if it is a statement.
-/
include hInner in
theorem expressionPart_uses :
    (expressionPart inner).Uses OwnsPart := by
  refine hInner.bind fun value r hValue => ?_
  have hSpan := Expression.encloses_of_owns hValue
  refine .punct?_bind ?_ fun stop r' hStop => .pure ?_
  · refine .punct?_bind (.fail _) fun stop r' hStop =>
      .pure ?_
    rw [List.append_nil]
    exact ⟨.first hValue .nil, hStop.stops.skip r⟩
  · rw [List.append_nil]
    have hOwns :
        (Statement.expression value
          (value.span.through stop)).outline.Owns
            (r ++ r') := by
      rw [Statement.outline]
      exact .of_parts
        (.through (hSpan.starts.append _)
          (hStop.stops.skip r)) rfl (.first hValue .nil)
    exact hOwns

/-
  Either part of a block, a binding or an expression, owns
  its tokens.
-/
include hInner hTy in
theorem blockPart_uses :
    (blockPart inner innerTy).Uses OwnsPart := by
  have hEnd :
      (do
        let stop ← punct .rightBrace
        pure (.inr (none, stop)) :
          Parser (Statement ⊕ BlockEnd)).Uses OwnsPart := by
    refine (Uses.punct .rightBrace).bind
      fun stop r hStop => .pure ?_
    rw [List.append_nil]
    exact ⟨.nil, hStop.stops⟩
  have hLet :
      ((.inl ∘ .binding) <$> letBinding inner innerTy :
        Parser (Statement ⊕ BlockEnd)).Uses OwnsPart := by
    refine .map ((letBinding_uses hInner hTy).mono
      fun b r hBoth => ?_)
    have hOwns : (Statement.binding b).outline.Owns r := by
      rw [Statement.outline]
      exact .of_parts hBoth.1 rfl hBoth.2
    exact hOwns
  have hOther := expressionPart_uses hInner
  refine .peek_bind fun next => ?_
  cases next with
  | none => exact hOther
  | some kind =>
      cases kind with
      | punct mark =>
          cases mark with
          | rightBrace => exact hEnd
          | _ => exact hOther
      | keyword k =>
          cases k with
          | letKw => exact hLet
          | _ => exact hOther
      | _ => exact hOther

/- A block owns its braces and the parts between them. -/
include hInner hTy in
theorem blockOf_uses :
    (blockOf inner innerTy).Uses fun b run =>
      b.outline.Owns run := by
  have hParts :
      (collect (.punct .rightBrace)
          (blockPart inner innerTy)).Uses fun parts run =>
        Outline.OwnsAll
            (parts.1.map Statement.outline ++
              (parts.2.1.map Expression.outline).toList)
            run ∧
          parts.2.2.StopsWith run := by
    refine .collect (blockPart_uses hInner hTy)
      (fun last run hLast => hLast) ?_
    intro s ss last run more hOwns hAll
    exact ⟨.first hOwns hAll.1, hAll.2.skip run⟩
  refine (Uses.punct .leftBrace).bind ?_
  intro start r hStart
  refine hParts.bind fun parts r' hAll => .pure ?_
  rw [List.append_nil, Block.outline]
  refine .of_parts ?_ rfl ?_
  · exact .through (hStart.starts.append _) (hAll.2.skip r)
  · rw [Block.outlineStatements_eq,
      Expression.outlineOption_eq]
    exact hAll.1.skip r

/- Any expression owns its tokens if those inside it do. -/
include hInner hBlock hPattern in
theorem expressionOf_uses :
    (expressionOf inner innerBlock innerPattern).Uses
      fun e run => e.outline.Owns run := by
  have hOther :
      ∀ kind : TokenKind,
        (if kind.literal?.isSome then
            Expression.literal <$> literal .expression
          else if kind.word?.isSome then
            Expression.path <$> path
          else fail (.expected .expression)).Uses
            fun e run => e.outline.Owns run := by
    intro kind
    split
    · refine .map ((Uses.literal _).mono fun l run hOwns => ?_)
      exact .of_parts hOwns.encloses rfl (.single hOwns)
    · split
      · refine .map (Uses.path.mono fun p run hPath => ?_)
        exact .of_parts hPath.1.encloses rfl
          (.single hPath.1)
      · exact .fail _
  have hBraces :
      (Expression.block <$> innerBlock).Uses fun e run =>
        e.outline.Owns run := by
    refine .map (hBlock.mono fun b run hOwns => ?_)
    exact .of_parts (Block.encloses_of_owns hOwns) rfl
      (.single hOwns)
  have hMatch :
      (Expression.matching <$>
          matchOf inner innerPattern).Uses fun e run =>
        e.outline.Owns run := by
    refine .map ((matchOf_uses hInner hPattern).mono
      fun m run hBoth => ?_)
    rw [Expression.outline]
    exact .of_parts hBoth.1 rfl hBoth.2
  refine .peek_bind fun next => ?_
  cases next with
  | none => exact .fail _
  | some kind =>
      cases kind with
      | punct mark =>
          cases mark with
          | leftBrace => exact hBraces
          | _ => exact hOther _
      | keyword k =>
          cases k with
          | matchKw => exact hMatch
          | _ => exact hOther _
      | _ => exact hOther _

end Expressions

/-
  Expressions and blocks own their tokens at every level, by
  one induction.
-/
theorem expression_uses_and_block_uses
    (n : Nat) :
    ((expression n).Uses fun e run =>
        e.outline.Owns run) ∧
      (block n).Uses fun b run => b.outline.Owns run := by
  induction n with
  | zero =>
      rw [expression, block]
      exact ⟨.fail _, .fail _⟩
  | succ n ih =>
      rcases ih with ⟨hExpression, hBlock⟩
      rw [expression, block]
      exact
        ⟨expressionOf_uses hExpression hBlock
            (pattern_uses n),
          blockOf_uses hExpression (ty_uses n)⟩

theorem expression_uses
    (n : Nat) :
    (expression n).Uses fun e run => e.outline.Owns run :=
  (expression_uses_and_block_uses n).1

theorem block_uses
    (n : Nat) :
    (block n).Uses fun b run => b.outline.Owns run :=
  (expression_uses_and_block_uses n).2

end Parser

end FeSyntax
