import FeSyntax.Proofs.Parsing.Sentence

/-
  This file defines the sentences of expressions and blocks,
  and proves the productions that they are made by.

  Key definitions include:
    * `Expression.sentences`
    * `Expression.sentencesNotLet`
    * `Block.sentences`
    * `Statement.sentences`
    * `LetBinding.sentences`
    * `Match.sentences`
    * `MatchArm.sentences`

  Key theorems include:
    * `Expression.path_le`
    * `Match.arms_le`
    * `LetBinding.parts_le`
    * `Block.parts_le`
-/

namespace FeSyntax

open scoped Computability

open Spelling

------------------------------------------------------------
-- Sentences
------------------------------------------------------------

/- Every expression in which the keyword wins. -/
def Expression.sentences : Language TokenKind :=
  Spelling.sentences KeywordWins spellings

/- Those that do not start with the word `let`. -/
def Expression.sentencesNotLet : Language TokenKind :=
  sentences ⊓ headed (· ≠ .keyword .letKw)

/- Every block in which the keyword wins. -/
def Block.sentences : Language TokenKind :=
  Spelling.sentences KeywordWins spellings

/- Every statement in which the keyword wins. -/
def Statement.sentences : Language TokenKind :=
  Spelling.sentences KeywordWins spellings

/- Every `let` in which the keyword wins. -/
def LetBinding.sentences : Language TokenKind :=
  Spelling.sentences KeywordWins spellings

/- Every `match` in which the keyword wins. -/
def Match.sentences : Language TokenKind :=
  Spelling.sentences KeywordWins spellings

/- Every arm in which the keyword wins. -/
def MatchArm.sentences : Language TokenKind :=
  Spelling.sentences KeywordWins spellings

------------------------------------------------------------
-- Expressions
------------------------------------------------------------

namespace Expression

/- The kinds of words that can start a path. -/
def StartsPath
    (kind : TokenKind) : Prop :=
  (∀ b, kind ≠ .bool b) ∧ kind ≠ .keyword .matchKw

/- A literal is an expression. -/
theorem literal_le :
    Literal.sentences ≤ sentences :=
  sentences_le_iff.mpr fun l _ =>
    le_sentences (a := .literal l) .literal
      (le_of_eq (by rw [spellings]))

/-
  A path is an expression if it starts like no other form.
-/
theorem path_le :
    Path.sentences ⊓ headed StartsPath ≤ sentences := by
  refine inf_headed_le fun p ts hSome hReads hFirst => ?_
  have hPath : p.IsExpressionPath := by
    refine
      (Path.isExpressionPath_iff hReads hSome).mpr ⟨?_, ?_⟩
    · intro b hNext
      exact (hFirst _ hNext).1 b rfl
    · intro hNext
      exact (hFirst _ hNext).2 rfl
  refine le_sentences (a := .path p) (.path hPath) ?_
  rw [spellings]

theorem block_le :
    Block.sentences ≤ sentences :=
  sentences_le_iff.mpr fun b hBlock =>
    le_sentences (a := .block b) (.block hBlock)
      (le_of_eq (by rw [spellings]))

theorem matching_le :
    Match.sentences ≤ sentences :=
  sentences_le_iff.mpr fun m hMatch =>
    le_sentences (a := .matching m) (.matching hMatch)
      (le_of_eq (by rw [spellings]))

/- What does not start with `let` is no path that does. -/
theorem notLet_le :
    sentencesNotLet ≤
      Spelling.sentences
        (fun e : Expression =>
          e.KeywordWins ∧
            ¬ e.BeginsWith Keyword.letKw.spelling)
        spellings := by
  refine inf_headed_le fun e ts hKeyword hReads hFirst => ?_
  refine le_sentences ⟨hKeyword, ?_⟩ le_rfl
  intro hBegins
  have hNext :=
    (beginsWith_let_iff hReads hKeyword).mp hBegins
  exact hFirst _ hNext rfl

end Expression

------------------------------------------------------------
-- Match
------------------------------------------------------------

/-
  A pattern, an arrow and an expression are an arm, with a
  semicolon or without.
-/
theorem MatchArm.parts_le :
    Pattern.sentences *
        (Punct.fatArrow.written *
          (Expression.sentences *
            (1 + Punct.semicolon.written))) ≤
      MatchArm.sentences := by
  simp only [Pattern.sentences, Expression.sentences,
    sentences_mul, mul_sentences, sentences_le_iff]
  intro value hValue pattern hPattern
  refine le_sentences (a := ⟨pattern, value, .nowhere⟩)
    (.mk hPattern hValue) ?_
  rw [spellings, mul_assoc, mul_assoc]

/- Arms between braces behind a subject are a match. -/
theorem Match.arms_le :
    Keyword.matchKw.written *
        (Expression.sentences *
          (Punct.leftBrace.written *
            (MatchArm.sentences∗ *
              Punct.rightBrace.written))) ≤
      Match.sentences := by
  have hArms :
      MatchArm.sentences∗ ≤
        Spelling.sentences
          (fun arms : List MatchArm =>
            ∀ a ∈ arms, a.KeywordWins)
          fun arms => (arms.map MatchArm.spellings).prod :=
    kstar_sentences_le
  refine (mul_le_mul_right (mul_le_mul_right
    (mul_le_mul_right
      (mul_le_mul_left hArms _) _) _) _).trans ?_
  simp only [Expression.sentences, sentences_mul,
    mul_sentences, sentences_le_iff]
  intro arms hKeyword value hValue
  refine le_sentences (a := ⟨value, arms, .nowhere⟩)
    (.mk hValue hKeyword) ?_
  simp only [spellings, armSpellings_eq, mul_assoc, le_refl]

------------------------------------------------------------
-- Statements And Blocks
------------------------------------------------------------

/- What follows the name of a `let`. -/
def LetBinding.rest : Language TokenKind :=
  (1 + Punct.colon.written * Ty.sentences) *
    ((1 + Punct.equals.written * Expression.sentences) *
      Punct.semicolon.written)

/-
  A type and a value may both be missing behind the name of
  a binding.
-/
theorem LetBinding.rest_le :
    rest ≤
      Spelling.sentences
        (fun o : Option Ty => ∀ t ∈ o, t.KeywordWins)
        (fun o => behind (.punct .colon)
          (o.map Ty.spellings)) *
        (Spelling.sentences
          (fun o : Option Expression =>
            ∀ e ∈ o, e.KeywordWins)
          (fun o => behind (.punct .equals)
            (o.map Expression.spellings)) *
          Punct.semicolon.written) :=
  mul_le_mul' behind_le (mul_le_mul_left behind_le _)

/-
  Without `mut`, the name of a binding must not be that
  word.
-/
theorem LetBinding.parts_le :
    Keyword.letKw.written *
        (Keyword.mutKw.written *
            (Identifier.sentences * rest) +
          (Identifier.sentences ⊓
            headed (· ≠ .keyword .mutKw)) * rest) ≤
      LetBinding.sentences := by
  rw [mul_add]
  refine add_le_iff.mpr ⟨?_, ?_⟩
  · refine (mul_le_mul_right (mul_le_mul_right
      (mul_le_mul_right rest_le _) _) _).trans ?_
    simp only [Identifier.sentences, sentences_mul,
      mul_sentences, sentences_le_iff]
    intro value hValue ty hTy name _
    refine le_sentences
      (a := ⟨true, name, ty, value, .nowhere⟩)
      (.mk nofun hTy hValue) ?_
    simp only [spellings, Expression.optionSpellings_eq,
      mul_assoc]
    rfl
  · refine (mul_le_mul_right (mul_le_mul'
      (Identifier.headed_le .mutKw) rest_le) _).trans ?_
    simp only [sentences_mul, mul_sentences,
      sentences_le_iff]
    intro value hValue ty hTy name hName
    refine le_sentences
      (a := ⟨false, name, ty, value, .nowhere⟩)
      (.mk (fun _ => hName) hTy hValue) ?_
    simp only [spellings, Expression.optionSpellings_eq,
      present, if_neg Bool.false_ne_true, mul_one,
      mul_assoc, le_refl]

theorem Statement.binding_le :
    LetBinding.sentences ≤ Statement.sentences :=
  sentences_le_iff.mpr fun b hBinding =>
    le_sentences (a := .binding b) (.binding hBinding)
      (le_of_eq (by rw [spellings]))

/-
  An expression with a semicolon is a statement, unless it
  starts like a binding.
-/
theorem Statement.expression_le :
    Expression.sentencesNotLet * Punct.semicolon.written ≤
      Statement.sentences := by
  refine (mul_le_mul_left Expression.notLet_le _).trans ?_
  rw [sentences_mul, sentences_le_iff]
  rintro e ⟨hKeyword, hLet⟩
  refine le_sentences (a := .expression e .nowhere)
    (.expression hKeyword hLet) ?_
  rw [spellings]

/- The last part of a block, with its closing brace. -/
def Block.ending : Language TokenKind :=
  Punct.rightBrace.written +
    Expression.sentencesNotLet * Punct.rightBrace.written

/- A block ends with an expression or without one. -/
theorem Block.ending_le :
    ending ≤
      Spelling.sentences
        (fun o : Option Expression =>
          ∀ e ∈ o, e.KeywordWins ∧
            ¬ e.BeginsWith Keyword.letKw.spelling)
        (fun o =>
          (o.map Expression.spellings).getD 1 *
            Punct.rightBrace.written) := by
  refine add_le_iff.mpr ⟨?_, ?_⟩
  · refine le_sentences (a := none) nofun ?_
    rw [Option.map_none, Option.getD_none, one_mul]
  · refine (mul_le_mul_left Expression.notLet_le _).trans ?_
    rw [sentences_mul, sentences_le_iff]
    intro e hTail
    refine le_sentences (a := some e) ?_ le_rfl
    rintro e' ⟨⟩
    exact hTail

/- Statements and the end, behind a brace, are a block. -/
theorem Block.parts_le :
    Punct.leftBrace.written *
        (Statement.sentences∗ * ending) ≤
      Block.sentences := by
  have hStatements :
      Statement.sentences∗ ≤
        Spelling.sentences
          (fun ss : List Statement =>
            ∀ s ∈ ss, s.KeywordWins)
          fun ss => (ss.map Statement.spellings).prod :=
    kstar_sentences_le
  refine (mul_le_mul_right
    (mul_le_mul' hStatements ending_le) _).trans ?_
  simp only [sentences_mul, mul_sentences, sentences_le_iff]
  intro tail hTail statements hKeyword
  refine le_sentences (a := ⟨statements, tail, .nowhere⟩)
    (.mk hKeyword (fun e hMem => (hTail e hMem).1)
      fun e hMem => (hTail e hMem).2) ?_
  simp only [spellings, Block.statementSpellings_eq,
    Expression.optionSpellings_eq, mul_assoc, le_refl]

end FeSyntax
