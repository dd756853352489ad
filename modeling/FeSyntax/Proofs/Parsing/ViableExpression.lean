import FeSyntax.Proofs.Parsing.AdvanceDefinition
import FeSyntax.Proofs.Parsing.SentenceExpression
import FeSyntax.Proofs.Parsing.Viable

/-
  This file proves that the parsers of types, patterns and
  expressions are viable for the sentences of their sort.

  Key theorems include:
    * `Parser.ty_viable`
    * `Parser.pattern_viable`
    * `Parser.expression_viable`
    * `Parser.block_viable`
-/

namespace FeSyntax

open scoped Computability

open Spelling

------------------------------------------------------------
-- Sentences That Can Be Written
------------------------------------------------------------

theorem Ty.plainName_mem :
    [.plainName] ∈ Ty.sentences :=
  path_le (plainName_mem_inf Path.plainName_mem nofun)

theorem Pattern.plainName_mem :
    [.plainName] ∈ Pattern.sentences :=
  identifier_le
    (plainName_mem_inf Identifier.plainName_mem
      ⟨nofun, nofun⟩)

theorem Expression.plainName_mem :
    [.plainName] ∈ Expression.sentences :=
  path_le
    (plainName_mem_inf Path.plainName_mem ⟨nofun, nofun⟩)

instance : Fillable Ty.sentences :=
  .of_plainName Ty.plainName_mem

instance : Fillable Pattern.sentences :=
  .of_plainName Pattern.plainName_mem

instance : Fillable Expression.sentences :=
  .of_plainName Expression.plainName_mem

instance : Fillable Block.ending :=
  inferInstanceAs (Fillable (Punct.rightBrace.written + _))

instance : Fillable Block.sentences :=
  .of_le Block.parts_le

instance : Fillable LetBinding.rest :=
  inferInstanceAs (Fillable (_ * (_ * _)))

instance : Fillable MatchArm.sentences :=
  .of_le MatchArm.parts_le

namespace Parser

------------------------------------------------------------
-- Types
------------------------------------------------------------

section Types

variable {inner : Parser Ty}
variable {n : Nat}
variable (hInner : inner.Viable Anywhere Ty.sentences)
variable (hPasses : inner.Passes 1 n)

/- A primitive type passes its one token. -/
theorem primitiveTy_viable
    {first : Option TokenKind → Prop} :
    primitiveTy.Viable first Ty.sentences := by
  refine .accept (fun _ _ => ⟨_, rfl⟩) ?_
  intro ts rest ty _ hDone
  rcases bind_eq_done.mp hDone with
    ⟨⟨p, span⟩, mid, hRun, hPure⟩
  rcases accept_eq_done.mp hRun with ⟨t, rfl, hKind, -⟩
  rcases pure_eq_done.mp hPure with ⟨-, rfl⟩
  have hSame : t.kind = .primitive p := by
    cases hToken : t.kind <;>
      simp_all [TokenKind.primitive?]
  exact (reads_written_iff.mpr ⟨t, rfl, hSame⟩).mono
    (Ty.primitive_le p)

/-
  Behind `mut` or without it, a reference passes the words
  of its type.
-/
include hInner in
theorem referenceTy_viable
    {first : Option TokenKind → Prop} :
    (referenceTy inner).Viable first Ty.sentences := by
  have hBare :
      inner.Viable (· ≠ some (.keyword .mutKw))
        (Ty.sentences ⊓ headed (· ≠ .keyword .mutKw)) :=
    hInner.headed (plainName_mem_inf Ty.plainName_mem nofun)
      fun _ hNot hSame => hNot (congrArg some hSame)
  refine Viable.le ?_ Ty.reference_le
  exact (Viable.punct .ampersand).bind fun _ =>
    .keyword?_bind (fun _ => hInner.final fun _ => .pure _)
      (hBare.final fun _ => .pure _)

/-
  A tuple passes the words of its elements between
  parentheses.
-/
include hInner hPasses in
theorem tupleTy_viable
    {first : Option TokenKind → Prop} :
    (tupleTy inner).Viable first Ty.sentences := by
  refine Viable.le ?_ Ty.tuple_le
  exact (Viable.punct .leftParen).bind fun _ =>
    (Viable.commaList hInner hPasses .rightParen).final
      fun _ => .pure _

/- Each next kind leads to a form whose words are types. -/
include hInner hPasses in
theorem tyOf_viable :
    (tyOf inner).Viable Anywhere Ty.sentences := by
  have hWord :
      ∀ kind : TokenKind, (∀ p, kind ≠ .primitive p) →
        (if kind.word?.isSome then Ty.path <$> path
          else fail (.expected .type)).Viable
            (· = some kind) Ty.sentences := by
    intro kind hKind
    have hPath :
        path.Viable (· = some kind)
          (Path.sentences ⊓
            headed fun kind =>
              ∀ p, kind ≠ .primitive p) := by
      refine Viable.path.headed
        (plainName_mem_inf Path.plainName_mem nofun) ?_
      rintro _ ⟨⟩
      exact hKind
    split
    · exact (hPath.map _).le Ty.path_le
    · exact .ofExpected _
  refine .peek_bind fun next _ => ?_
  cases next with
  | none => exact .ofExpected _
  | some kind =>
      cases kind with
      | primitive p => exact primitiveTy_viable
      | punct mark =>
          cases mark with
          | ampersand => exact referenceTy_viable hInner
          | leftParen =>
              exact tupleTy_viable hInner hPasses
          | _ => exact hWord _ nofun
      | _ => exact hWord _ nofun

end Types

theorem ty_viable
    (n : Nat) :
    (ty n).Viable Anywhere Ty.sentences := by
  induction n with
  | zero => exact .ofTooDeep
  | succ n ih => exact tyOf_viable ih (ty_passes n)

------------------------------------------------------------
-- Patterns
------------------------------------------------------------

section Patterns

variable {inner : Parser Pattern}
variable {n : Nat}
variable (hInner : inner.Viable Anywhere Pattern.sentences)
variable (hPasses : inner.Passes 1 n)

/- The kinds that a name in a pattern can start with. -/
def AtName
    (next : Option TokenKind) : Prop :=
  ∀ kind, next = some kind → Pattern.StartsName kind

/- A path in a pattern starts as a name does. -/
theorem patternPath_viable :
    path.Viable AtName
      (Path.sentences ⊓ headed Pattern.StartsName) :=
  Viable.path.headed
    (plainName_mem_inf Path.plainName_mem ⟨nofun, nofun⟩)
    fun kind hFirst => hFirst kind rfl

include hInner hPasses

/-
  The elements of a pattern pass their words and the closing
  parenthesis.
-/
theorem patternElements_viable :
    (commaList .rightParen inner).Viable Anywhere
      (anyOf .rightParen Pattern.sentences) :=
  .commaList hInner hPasses .rightParen

/-
  Whether a path may stand alone depends on its length, so
  the two ends of the parser are told apart.
-/
theorem reads_of_namedPattern
    {ts rest : List Token}
    {x : Pattern}
    (hLexed : Lexed ts)
    (hFirst : AtName (nextKind ts))
    (hDone : namedPattern inner ts = .done x rest) :
    Reads ts Pattern.sentences rest := by
  rcases namedPattern_eq_done.mp hDone with
    ⟨p, mid, hRun, hEnd⟩
  rcases hEnd with
    ⟨-, rfl, name, hName, -⟩ |
    ⟨start, mid', hOpen, elements, stop, hRest, -⟩
  · have hSingle : p.spellings = name.spellings := by
      simp [Path.spellings, hName, separated]
    have hReads := (path_sound hLexed hRun).1
    rw [hSingle] at hReads
    have hName :=
      hReads.mono (m := Identifier.sentences)
        (le_sentences trivial le_rfl)
    exact (hName.headed hFirst).mono Pattern.identifier_le
  · have hReads :=
      patternPath_viable.done hLexed hFirst hRun
    have hReadsOpen := reads_of_punct hOpen
    have hReadsRest :=
      (patternElements_viable hInner hPasses).done
        (hReadsOpen.lexed (hReads.lexed hLexed)) trivial
        hRest
    exact (hReads.mul (hReadsOpen.mul hReadsRest)).mono
      Pattern.tupleStruct_le

/-
  Where a named pattern is rejected, its path can still be
  followed by elements.
-/
theorem leads_of_namedPattern
    {ts rest : List Token}
    {what : Expectation}
    (hLexed : Lexed ts)
    (hFirst : AtName (nextKind ts))
    (hStopped :
      namedPattern inner ts =
        .stopped (.expected what) rest) :
    Leads ts Pattern.sentences rest := by
  rcases bind_eq_stopped.mp hStopped with
    hRun | ⟨p, mid, hRun, hEnd⟩
  · exact
      (patternPath_viable.stopped hLexed hFirst
        hRun).mul.mono Pattern.tupleStruct_le
  · have hReads :=
      patternPath_viable.done hLexed hFirst hRun
    have hLexedMid := hReads.lexed hLexed
    refine (hReads.leads_mul ?_).mono Pattern.tupleStruct_le
    rcases bind_eq_stopped.mp hEnd with
      hOpen | ⟨o, mid', hOpen, hRest⟩
    · have hMark := (whenAt_eq_stopped.mp hOpen).2
      have hViable :
          (punct .leftParen).Viable Anywhere _ :=
        .punct .leftParen
      exact (hViable.stopped hLexedMid trivial hMark).mul
    · rcases punct?_eq_done.mp hOpen with
        ⟨-, rfl, rfl⟩ | ⟨start, hStart, rfl⟩
      · -- A path of several names stops behind itself.
        have hStays : rest = mid := by
          rcases p with ⟨segments, span⟩
          rcases segments with _ | ⟨name, _ | _⟩ <;>
            cases hRest <;> rfl
        rw [hStays]
        exact Fillable.leads mid
      · have hReadsOpen := reads_of_punct hStart
        refine hReadsOpen.leads_mul ?_
        exact
          ((patternElements_viable hInner hPasses).final
            fun _ => .pure _).stopped
            (hReadsOpen.lexed hLexedMid) trivial hRest

/-
  A named pattern passes a name, or a path with elements.
-/
theorem namedPattern_viable :
    (namedPattern inner).Viable AtName
      Pattern.sentences where
  done := fun hLexed hFirst hDone =>
    reads_of_namedPattern hInner hPasses hLexed hFirst hDone
  stopped := fun hLexed hFirst hStopped =>
    leads_of_namedPattern hInner hPasses hLexed hFirst
      hStopped

/-
  Each next kind leads to a form whose words are patterns.
-/
theorem patternOf_viable :
    (patternOf inner).Viable Anywhere
      Pattern.sentences := by
  have hWildcard {first : Option TokenKind → Prop} :
      wildcardPattern.Viable first Pattern.sentences :=
    ((Viable.keyword .underscore).final
      fun _ => .pure _).le Pattern.wildcard_le
  have hOther :
      ∀ kind : TokenKind, kind ≠ .keyword .underscore →
        (if kind.literal?.isSome then
            Pattern.literal <$> literal .pattern
          else if kind.word?.isSome then namedPattern inner
          else fail (.expected .pattern)).Viable
            (· = some kind) Pattern.sentences := by
    intro kind hKind
    split
    · exact ((Viable.literal _).map _).le Pattern.literal_le
    · split
      · refine (namedPattern_viable hInner hPasses).mono ?_
        rintro _ rfl _ ⟨⟩
        refine ⟨?_, hKind⟩
        rintro b rfl
        contradiction
      · exact .ofExpected _
  refine .peek_bind fun next _ => ?_
  cases next with
  | none => exact .ofExpected _
  | some kind =>
      cases kind with
      | keyword k =>
          cases k with
          | underscore => exact hWildcard
          | _ => exact hOther _ nofun
      | _ => exact hOther _ nofun

end Patterns

/- Patterns are viable at every level. -/
theorem pattern_viable
    (n : Nat) :
    (pattern n).Viable Anywhere Pattern.sentences := by
  induction n with
  | zero => exact .ofTooDeep
  | succ n ih => exact patternOf_viable ih (pattern_passes n)

------------------------------------------------------------
-- Expressions And Blocks
------------------------------------------------------------

section Expressions

variable {inner : Parser Expression}
variable {innerBlock : Parser Block}
variable {innerTy : Parser Ty}
variable {innerPattern : Parser Pattern}
variable {n m : Nat}
variable
  (hInner : inner.Viable Anywhere Expression.sentences)
variable
  (hBlock : innerBlock.Viable Anywhere Block.sentences)
variable (hTy : innerTy.Viable Anywhere Ty.sentences)
variable
  (hPattern :
    innerPattern.Viable Anywhere Pattern.sentences)
variable (hInnerPasses : inner.Passes 1 (n - 1))
variable (hTyPasses : innerTy.Passes 1 n)
variable (hPatternPasses : innerPattern.Passes 1 n)

/- An arm passes a pattern, an arrow and an expression. -/
include hInner hPattern in
theorem matchArm_viable :
    (matchArm inner innerPattern).Viable Anywhere
      MatchArm.sentences := by
  refine Viable.le ?_ MatchArm.parts_le
  exact hPattern.bind fun _ =>
    (Viable.punct .fatArrow).bind fun _ =>
      hInner.bind fun _ =>
        (Viable.punct .semicolon).whenAt.final fun _ =>
          .pure _

/- A match passes the words of its subject and its arms. -/
include hInner hPattern hInnerPasses hPatternPasses in
theorem matchOf_viable
    {first : Option TokenKind → Prop} :
    (matchOf inner innerPattern).Viable first
      Match.sentences := by
  have hArms {first : Option TokenKind → Prop} :
      (itemsUntil .rightBrace
          (matchArm inner innerPattern)).Viable first
        (MatchArm.sentences∗ * Punct.rightBrace.written) :=
    .itemsUntil (matchArm_viable hInner hPattern)
      (matchArm_passes hInnerPasses hPatternPasses) _
  refine Viable.le ?_ Match.arms_le
  exact (Viable.keyword .matchKw).bind fun _ =>
    hInner.bind fun _ =>
      (Viable.punct .leftBrace).bind fun _ =>
        hArms.final fun _ => .pure _

/-
  A binding passes the words of its type and its value, if
  they are there.
-/
include hInner hTy in
theorem letBinding_viable
    {first : Option TokenKind → Prop} :
    (letBinding inner innerTy).Viable first
      LetBinding.sentences := by
  have hName :
      identifier.Viable (· ≠ some (.keyword .mutKw))
        (Identifier.sentences ⊓
          headed (· ≠ .keyword .mutKw)) :=
    Viable.identifier.headed
      (plainName_mem_inf Identifier.plainName_mem nofun)
      fun _ hNot hSame => hNot (congrArg some hSame)
  have hColon :
      (do let _ ← punct .colon; innerTy).Viable Anywhere
        (Punct.colon.written * Ty.sentences) :=
    (Viable.punct .colon).bind fun _ => hTy
  have hEquals :
      (do let _ ← punct .equals; inner).Viable Anywhere
        (Punct.equals.written * Expression.sentences) :=
    (Viable.punct .equals).bind fun _ => hInner
  have hRest
      (f : Option Ty → Option Expression → Span →
        LetBinding) :
      (do
        let ty ← whenAt (.punct .colon) do
          let _ ← punct .colon
          innerTy
        let value ← whenAt (.punct .equals) do
          let _ ← punct .equals
          inner
        let stop ← punct .semicolon
        pure (f ty value stop)).Viable Anywhere
          LetBinding.rest :=
    hColon.whenAt.bind fun _ => hEquals.whenAt.bind fun _ =>
      (Viable.punct .semicolon).final fun _ => .pure _
  refine Viable.le ?_ LetBinding.parts_le
  exact (Viable.keyword .letKw).bind fun _ =>
    .keyword?_bind
      (fun _ => Viable.identifier.bind fun _ => hRest _)
      (hName.bind fun _ => hRest _)

/-
  What does not start with `let` passes no words that do.
-/
include hInner in
theorem valueNotLet_viable :
    inner.Viable (· ≠ some (.keyword .letKw))
      Expression.sentencesNotLet :=
  hInner.headed
    (plainName_mem_inf Expression.plainName_mem nofun)
    fun _ hNot hSame => hNot (congrArg some hSame)

include hInner in
/- An expression with the mark that tells what part it is. -/
theorem reads_of_expressionPart
    {ts rest : List Token}
    {part : Statement ⊕ BlockEnd}
    (hLexed : Lexed ts)
    (hNext : nextKind ts ≠ some (.keyword .letKw))
    (hDone : expressionPart inner ts = .done part rest) :
    (∀ s, part = .inl s →
      Reads ts Statement.sentences rest) ∧
    ∀ last, part = .inr last →
      Reads ts Block.ending rest := by
  rcases expressionPart_eq_done.mp hDone with
    ⟨value, mid, hRun, hEnd⟩
  have hReads :=
    (valueNotLet_viable hInner).done hLexed hNext hRun
  rcases hEnd with
    ⟨stop, hStop, rfl⟩ | ⟨-, stop, hStop, rfl⟩
  · refine ⟨fun _ _ => ?_, nofun⟩
    exact (hReads.mul (reads_of_punct hStop)).mono
      Statement.expression_le
  · refine ⟨nofun, fun _ _ => ?_⟩
    exact (hReads.mul (reads_of_punct hStop)).mono
      le_add_self

/-
  Whether it is a statement or the last one is told by the
  mark behind the expression.
-/
include hInner in
theorem expressionPart_viable :
    (expressionPart inner).Viable
      (· ≠ some (.keyword .letKw))
      (Statement.sentences + Block.ending) := by
  have hParts :
      (expressionPart inner).Viable
        (· ≠ some (.keyword .letKw))
        (Expression.sentencesNotLet *
          (Punct.semicolon.written * 1 +
            (Punct.rightBrace.written * 1 +
              Punct.semicolon.written))) :=
    (valueNotLet_viable hInner).bind fun _ =>
      .punct?_bind (fun _ => .pure _)
        (.punct?_bind (fun _ => .pure _) (.ofExpected _))
  refine hParts.le ?_
  rw [mul_one, mul_one, mul_add, mul_add]
  refine add_le_iff.mpr ⟨?_, add_le_iff.mpr ⟨?_, ?_⟩⟩
  · exact Statement.expression_le.trans le_self_add
  · exact le_add_self.trans le_add_self
  · exact Statement.expression_le.trans le_self_add

/- Each next kind leads to a part of a block. -/
include hInner hTy in
theorem blockPart_viable :
    (blockPart inner innerTy).Viable Anywhere
      (Statement.sentences + Block.ending) := by
  have hEnd {first : Option TokenKind → Prop} :
      (do
        let stop ← punct .rightBrace
        pure (.inr (none, stop)) :
          Parser (Statement ⊕ BlockEnd)).Viable first
        (Statement.sentences + Block.ending) :=
    ((Viable.punct .rightBrace).final fun _ => .pure _).le
      (le_self_add.trans le_add_self)
  have hLet {first : Option TokenKind → Prop} :
      (letBinding inner innerTy).Viable first
        (Statement.sentences + Block.ending) :=
    (letBinding_viable hInner hTy).le
      (Statement.binding_le.trans le_self_add)
  have hOther :
      ∀ next, next ≠ some (.keyword .letKw) →
        (expressionPart inner).Viable (· = next)
          (Statement.sentences + Block.ending) := by
    intro next hNext
    refine (expressionPart_viable hInner).mono ?_
    rintro _ rfl
    exact hNext
  refine .peek_bind fun next _ => ?_
  cases next with
  | none => exact hOther _ nofun
  | some kind =>
      cases kind with
      | punct mark =>
          cases mark with
          | rightBrace => exact hEnd
          | _ => exact hOther _ nofun
      | keyword k =>
          cases k with
          | letKw => exact hLet.map _
          | _ => exact hOther _ nofun
      | _ => exact hOther _ nofun

/- A block passes the words of its parts between braces. -/
include hInner hTy hInnerPasses hTyPasses in
theorem blockOf_viable :
    (blockOf inner innerTy).Viable Anywhere
      Block.sentences := by
  have hLet :
      (letBinding inner innerTy).Viable Anywhere
        LetBinding.sentences :=
    letBinding_viable hInner hTy
  have hParts {first : Option TokenKind → Prop} :
      (collect (.punct .rightBrace)
          (blockPart inner innerTy)).Viable first
        (Statement.sentences∗ * Block.ending) := by
    refine .collect
      (.blockPart hInnerPasses hTyPasses) ?_ ?_
      (blockPart_viable hInner hTy)
    · intro ts rest s hLexed hDone
      rcases blockPart_eq_done.mp hDone with
        ⟨stop, -, hPart⟩ | ⟨-, b, hRun, -⟩ |
        ⟨-, hNext, hPart⟩
      · cases hPart
      · exact (hLet.done hLexed trivial hRun).mono
          Statement.binding_le
      · exact (reads_of_expressionPart hInner hLexed hNext
          hPart).1 s rfl
    · intro ts rest part hLexed hDone
      rcases blockPart_eq_done.mp hDone with
        ⟨stop, hStop, -⟩ | ⟨-, b, -, hPart⟩ |
        ⟨-, hNext, hPart⟩
      · exact (reads_of_punct hStop).mono le_self_add
      · cases hPart
      · exact (reads_of_expressionPart hInner hLexed hNext
          hPart).2 part rfl
  refine Viable.le ?_ Block.parts_le
  exact (Viable.punct .leftBrace).bind fun _ =>
    hParts.final fun _ => .pure _

/-
  Each next kind leads to a form whose words are
  expressions.
-/
include hInner hBlock hPattern hInnerPasses
  hPatternPasses in
theorem expressionOf_viable :
    (expressionOf inner innerBlock innerPattern).Viable
      Anywhere Expression.sentences := by
  have hOther :
      ∀ kind : TokenKind, kind ≠ .keyword .matchKw →
        (if kind.literal?.isSome then
            Expression.literal <$> literal .expression
          else if kind.word?.isSome then
            Expression.path <$> path
          else fail (.expected .expression)).Viable
            (· = some kind) Expression.sentences := by
    intro kind hKind
    split
    · exact ((Viable.literal _).map _).le
        Expression.literal_le
    · split
      · have hPath :
            path.Viable (· = some kind)
              (Path.sentences ⊓
                headed Expression.StartsPath) := by
          refine Viable.path.headed
            (plainName_mem_inf Path.plainName_mem
              ⟨nofun, nofun⟩) ?_
          rintro _ ⟨⟩
          refine ⟨?_, hKind⟩
          rintro b rfl
          contradiction
        exact (hPath.map _).le Expression.path_le
      · exact .ofExpected _
  refine .peek_bind fun next _ => ?_
  cases next with
  | none => exact .ofExpected _
  | some kind =>
      cases kind with
      | punct mark =>
          cases mark with
          | leftBrace =>
              exact (hBlock.here.map _).le
                Expression.block_le
          | _ => exact hOther _ nofun
      | keyword k =>
          cases k with
          | matchKw =>
              exact ((matchOf_viable hInner hPattern
                hInnerPasses hPatternPasses).map _).le
                Expression.matching_le
          | _ => exact hOther _ nofun
      | _ => exact hOther _ nofun

end Expressions

/-
  Expressions and blocks are viable at every level, by one
  induction.
-/
theorem expression_viable_and_block_viable
    (n : Nat) :
    (expression n).Viable Anywhere Expression.sentences ∧
      (block n).Viable Anywhere Block.sentences := by
  induction n with
  | zero =>
      rw [expression, block]
      exact ⟨.ofTooDeep, .ofTooDeep⟩
  | succ n ih =>
      rcases ih with ⟨hExpression, hBlock⟩
      rw [expression, block]
      exact
        ⟨expressionOf_viable hExpression hBlock
            (pattern_viable n) (expression_passes n)
            (pattern_passes n),
          blockOf_viable hExpression (ty_viable n)
            (expression_passes n) (ty_passes n)⟩

/- The half of it about expressions. -/
theorem expression_viable
    (n : Nat) :
    (expression n).Viable Anywhere Expression.sentences :=
  (expression_viable_and_block_viable n).1

theorem block_viable
    (n : Nat) :
    (block n).Viable Anywhere Block.sentences :=
  (expression_viable_and_block_viable n).2

end Parser

end FeSyntax
