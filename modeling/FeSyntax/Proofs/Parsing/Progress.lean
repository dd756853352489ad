import FeSyntax.Proofs.Parsing.Deepen
import FeSyntax.Proofs.Parsing.Rules
import FeSyntax.Proofs.Parsing.Turns

/-
  This file proves that the parser comes to an end, whatever
  the levels are.  Every turn of a loop passes a token, and
  so does every call of a rule by a rule, but for that of a
  block by an expression.  Two times the number of tokens,
  and one more for an expression, is therefore a measure
  that every call makes smaller, and the grammar without
  levels has exactly one solution.

  Key definitions include:
    * `Parser.Call`
    * `Parser.Call.Makes`
    * `Parser.Call.Chain`
    * `Parser.Rule.unlimited`

  Key theorems include:
    * `Parser.Call.Makes.passes`
    * `Parser.Call.Chain.add_length_le`
    * `Parser.Call.Chain.le_one`
    * `Parser.Rule.body_unlimited`
    * `Parser.Rule.eq_unlimited`
    * `Parser.loops_and_calls_make_progress`
-/

namespace FeSyntax

namespace Parser

------------------------------------------------------------
-- A Measure Of Calls
------------------------------------------------------------

/- How many calls in a row a rule can lead to at `ts`. -/
def Rule.weight
    (r : Rule)
    (ts : List Token) : Nat :=
  2 * ts.length + (if r = .expression then 1 else 0)

namespace Rule

variable {ts us : List Token}
variable {r r' : Rule}

theorem two_mul_length_le_weight :
    2 * ts.length ≤ r.weight ts :=
  Nat.le_add_right _ _

theorem weight_le :
    r.weight ts ≤ 2 * ts.length + 1 := by
  unfold weight
  split <;> omega

/- A token that was passed outweighs the expression. -/
theorem weight_lt_of_advances
    (hAdvances : Advances 1 ts us) :
    r'.weight us < r.weight ts := by
  have hLess := hAdvances.length_le
  have hUpper : r'.weight us ≤ 2 * us.length + 1 :=
    weight_le
  have hLower : 2 * ts.length ≤ r.weight ts :=
    two_mul_length_le_weight
  omega

theorem weight_block_lt :
    block.weight ts < expression.weight ts := by
  unfold weight
  simp

end Rule

------------------------------------------------------------
-- Calls
------------------------------------------------------------

/- A rule that is run at some tokens, with some levels. -/
structure Call where
  rule : Rule
  levels : Nat
  tokens : List Token

namespace Call

/-
  One call makes another with one level less: if only what
  comes of the second were different, something else would
  come of the first.
-/
def Makes
    (c d : Call) : Prop :=
  c.levels = d.levels + 1 ∧
    ∃ others : RuleParsers,
      (∀ r ts, ¬ (r = d.rule ∧ ts = d.tokens) →
        others r ts = r.parser d.levels ts) ∧
      c.rule.body others c.tokens ≠
        c.rule.parser c.levels c.tokens

/- Calls in a row, each of which makes the next one. -/
inductive Chain : Nat → Call → Call → Prop where
  | start
      (c : Call) :
      Chain 0 c c
  | call
      {c d e : Call}
      {k : Nat}
      (hMakes : c.Makes d)
      (hMore : Chain k d e) :
      Chain (k + 1) c e

variable {c d : Call}

/- A call passes a token, or an expression is a block. -/
theorem Makes.passes
    (hMakes : c.Makes d) :
    Advances 1 c.tokens d.tokens ∨
      c.rule = .expression ∧ d.rule = .block ∧
        d.tokens = c.tokens := by
  rcases hMakes with ⟨hLevels, others, hSame, hDiffers⟩
  by_cases hPasses : Advances 1 c.tokens d.tokens
  · exact .inl hPasses
  by_cases hBlock :
      c.rule = .expression ∧ d.rule = .block ∧
        d.tokens = c.tokens
  · exact .inr hBlock
  -- Elsewhere the second call does not matter.
  · refine absurd ?_ hDiffers
    rw [hLevels]
    apply Rule.body_eq_of_agreesBehind
    · intro r us hUs
      apply hSame
      rintro ⟨-, rfl⟩
      exact hPasses hUs
    · intro hRule
      apply hSame
      rintro ⟨hOther, hTokens⟩
      exact hBlock ⟨hRule, hOther.symm, hTokens.symm⟩

/- A call is below the one that makes it. -/
theorem Makes.weight_lt
    (hMakes : c.Makes d) :
    d.rule.weight d.tokens < c.rule.weight c.tokens := by
  rcases hMakes.passes with hPasses | ⟨hRule, hBlock, hSame⟩
  · exact Rule.weight_lt_of_advances hPasses
  · rw [hRule, hBlock, hSame]
    exact Rule.weight_block_lt

/- A chain of calls comes down by one at every call. -/
theorem Chain.add_weight_le
    {k : Nat}
    (hChain : Chain k c d) :
    k + d.rule.weight d.tokens ≤
      c.rule.weight c.tokens := by
  induction hChain with
  | start c => exact Nat.le_of_eq (Nat.zero_add _)
  | call hMakes hMore ih =>
      have hLess := hMakes.weight_lt
      omega

/- Every token that a chain passes stands for two calls. -/
theorem Chain.add_length_le
    {k : Nat}
    (hChain : Chain k c d) :
    k + 2 * d.tokens.length ≤ 2 * c.tokens.length + 1 := by
  have hWeight := hChain.add_weight_le
  have hUpper :
      c.rule.weight c.tokens ≤ 2 * c.tokens.length + 1 :=
    Rule.weight_le
  have hLower :
      2 * d.tokens.length ≤ d.rule.weight d.tokens :=
    Rule.two_mul_length_le_weight
  omega

/- A chain that passes no token is of at most one call. -/
theorem Chain.le_one
    {k : Nat}
    (hChain : Chain k c d)
    (hSame : d.tokens = c.tokens) :
    k ≤ 1 := by
  have hLength := hChain.add_length_le
  rw [hSame] at hLength
  omega

end Call

------------------------------------------------------------
-- Rules Without Levels
------------------------------------------------------------

namespace Rule

variable {n m : Nat}
variable {ts us : List Token}
variable {r : Rule}

/- More levels than the measure change nothing. -/
theorem parser_eq_of_weight_lt
    (hLess : r.weight ts < n)
    (hMore : r.weight ts < m) :
    r.parser n ts = r.parser m ts := by
  induction hWeight : r.weight ts
    using Nat.strongRecOn generalizing r ts n m with
  | ind w ih =>
      subst hWeight
      cases n with
      | zero => exact absurd hLess (Nat.not_lt_zero _)
      | succ n =>
          cases m with
          | zero => exact absurd hMore (Nat.not_lt_zero _)
          | succ m =>
              rw [parser_succ m]
              refine (body_eq_of_agreesBehind ?_ ?_).symm
              · intro r' us hUs
                have hBelow : r'.weight us < r.weight ts :=
                  weight_lt_of_advances hUs
                exact ih _ hBelow (by omega) (by omega) rfl
              · intro hRule
                subst hRule
                have hBelow :
                    block.weight ts <
                      expression.weight ts :=
                  weight_block_lt
                exact ih _ hBelow (by omega) (by omega) rfl

/- The rules with levels enough for any tokens. -/
def unlimited : RuleParsers :=
  fun r ts => r.parser (2 * ts.length + 2) ts

/-
  With more levels than the measure, a rule is as without
  levels.
-/
theorem parser_eq_unlimited
    (hLess : r.weight ts < n) :
    r.parser n ts = r.unlimited ts := by
  have hUpper : r.weight ts ≤ 2 * ts.length + 1 := weight_le
  exact parser_eq_of_weight_lt hLess (by omega)

/-
  Rules that are as without levels wherever the measure is
  smaller have a body that is as without levels.
-/
theorem body_eq_unlimited
    {others : RuleParsers}
    (hBelow :
      ∀ r' us, r'.weight us < r.weight ts →
        others r' us = r'.unlimited us) :
    r.body others ts = r.unlimited ts := by
  have hUpper : r.weight ts ≤ 2 * ts.length + 1 := weight_le
  have hSame :
      ∀ r' us, r'.weight us < r.weight ts →
        others r' us =
          r'.parser (2 * ts.length + 1) us := by
    intro r' us hLess
    rw [hBelow r' us hLess,
      parser_eq_unlimited (by omega)]
  apply body_eq_of_agreesBehind
  · intro r' us hUs
    exact hSame r' us (weight_lt_of_advances hUs)
  · intro hRule
    subst hRule
    exact hSame .block ts weight_block_lt

/- The rules without levels solve the equations. -/
theorem body_unlimited :
    body unlimited = unlimited := by
  funext r ts
  exact body_eq_unlimited fun _ _ _ => rfl

/- There is no other solution. -/
theorem eq_unlimited
    {others : RuleParsers}
    (hSolves : body others = others) :
    others = unlimited := by
  funext r ts
  induction hWeight : r.weight ts
    using Nat.strongRecOn generalizing r ts with
  | ind w ih =>
      subst hWeight
      rw [← congrFun (congrFun hSolves r) ts]
      exact body_eq_unlimited fun r' us hLess =>
        ih _ hLess r' us rfl

/- A rule with more levels gives the same. -/
theorem parser_deepens
    (hLevels : n ≤ m)
    (r : Rule) :
    (r.parser n).Deepens (r.parser m) := by
  cases r with
  | ty => exact ty_deepens hLevels
  | pattern => exact pattern_deepens hLevels
  | expression => exact expression_deepens hLevels
  | block => exact block_deepens hLevels
  | function visibility =>
      exact nestedFunction_deepens hLevels visibility
  | definition => exact definition_deepens hLevels

/-
  Levels change nothing but where a rule runs out of them.
-/
theorem parser_eq_unlimited_or
    (n : Nat)
    (r : Rule)
    (ts : List Token) :
    r.parser n ts = r.unlimited ts ∨
      n ≤ 2 * ts.length + 1 ∧
        ∃ rest, r.parser n ts = .stopped .tooDeep rest := by
  have hUpper : r.weight ts ≤ 2 * ts.length + 1 := weight_le
  by_cases hLess : r.weight ts < n
  · exact .inl (parser_eq_unlimited hLess)
  · have hLevels : n ≤ 2 * ts.length + 2 := by omega
    rcases parser_deepens hLevels r ts with hDeep | hSame
    · exact .inr ⟨by omega, hDeep⟩
    · exact .inl hSame.symm

end Rule

------------------------------------------------------------
-- Progress
------------------------------------------------------------

/-
  Every loop and every recursion of the parser comes to an
  end, at any tokens and with any levels:

    * a turn of a loop that gives an item passes a token,
      and so do the first item of a list with commas and the
      value at the end of a block,
    * a loop ends with a step of its own behind no more
      turns than it passes tokens,
    * a chain of calls that passes no token is of at most
      one call, and one that passes `m` tokens of at most
      `2 * m + 1`,
    * the rules without levels solve the equations of the
      grammar, nothing else does, and the levels change
      nothing but where a rule runs out of them.
-/
theorem loops_and_calls_make_progress :
    (∀ (l : Loop) n ts item rest,
      l.step n ts = .done (.inl item) rest →
        Advances 1 ts rest) ∧
    (∀ (l : CommaList) n ts item rest,
      l.item n ts = .done item rest →
        Advances 1 ts rest) ∧
    (∀ n ts value stop rest,
      Loop.block.step n ts =
          .done (.inr (some value, stop)) rest →
        Advances 1 ts rest) ∧
    (∀ (l : Loop) n k ts us,
      Turns (l.step n) k ts us →
        k + us.length ≤ ts.length) ∧
    (∀ (l : Loop) n missing ts, ∃ k us,
      Turns (l.step n) k ts us ∧
        EndsBehind missing (l.step n) k ts us) ∧
    (∀ k c d, Call.Chain k c d →
      k + 2 * d.tokens.length ≤ 2 * c.tokens.length + 1) ∧
    (∀ k c d, Call.Chain k c d →
      d.tokens = c.tokens → k ≤ 1) ∧
    ∃ parsers : RuleParsers,
      Rule.body parsers = parsers ∧
      (∀ others : RuleParsers,
        Rule.body others = others → others = parsers) ∧
      ∀ r n ts,
        Rule.parser n r ts = parsers r ts ∨
          n ≤ 2 * ts.length + 1 ∧
            ∃ rest,
              Rule.parser n r ts =
                .stopped .tooDeep rest := by
  refine ⟨?_, ?_, ?_, ?_, ?_, ?_, ?_, ?_⟩
  · intro l n ts item rest hStep
    exact l.step_itemsAdvance n ts rest item hStep
  · intro l n ts item rest hItem
    exact (l.item_passes n).done hItem
  · intro n ts value stop rest hStep
    have hValue := Loop.advances_of_block_value hStep
    exact hValue.mono (by omega)
  · intro l n k ts us hTurns
    exact hTurns.add_length_le (l.step_itemsAdvance n)
  · intro l n missing ts
    exact (l.step_itemsAdvance n).exists_endsBehind missing
      ts
  · intro k c d hChain
    exact hChain.add_length_le
  · intro k c d hChain hSame
    exact hChain.le_one hSame
  · refine ⟨Rule.unlimited, Rule.body_unlimited, ?_, ?_⟩
    · intro others hSolves
      exact Rule.eq_unlimited hSolves
    · intro r n ts
      exact r.parser_eq_unlimited_or n ts

/- The tokens of a block with a path in it. -/
def pathInBlock : List Token :=
  [⟨.punct .leftBrace, "\x7b", ⟨0, 1, 1, 1⟩⟩,
    ⟨.identifier "a", "a", ⟨1, 2, 1, 2⟩⟩,
    ⟨.punct .colonColon, "::", ⟨2, 4, 1, 3⟩⟩,
    ⟨.identifier "b", "b", ⟨4, 5, 1, 5⟩⟩,
    ⟨.punct .rightBrace, "\x7d", ⟨5, 6, 1, 6⟩⟩]

/- The expression calls its block at its own tokens. -/
theorem chain_pathInBlock :
    Call.Chain 1 ⟨.expression, 1, pathInBlock⟩
      ⟨.block, 0, pathInBlock⟩ := by
  -- A block that stops for another reason is passed on.
  have hMakes :
      Call.Makes ⟨.expression, 1, pathInBlock⟩
        ⟨.block, 0, pathInBlock⟩ := by
    refine ⟨rfl, ?_⟩
    refine
      ⟨fun r ts =>
        if r = .block ∧ ts = pathInBlock then
          .stopped (.expected .type) ts
        else r.parser 0 ts, ?_, ?_⟩
    · intro r ts hOther
      exact if_neg hOther
    · intro hSame
      cases hSame
  exact .call hMakes (.start _)

theorem loops_and_calls_make_progress_pathInBlock :
    Advances 1 (pathInBlock.drop 2) (pathInBlock.drop 4) ∧
    Advances 1 (pathInBlock.drop 1) (pathInBlock.drop 2) ∧
    Advances 1 (pathInBlock.drop 1) [] ∧
    1 + (pathInBlock.drop 4).length ≤
      (pathInBlock.drop 2).length ∧
    Call.Chain 1 ⟨.expression, 1, pathInBlock⟩
      ⟨.block, 0, pathInBlock⟩ ∧
    1 + 2 * pathInBlock.length ≤
      2 * pathInBlock.length + 1 ∧
    1 ≤ 1 := by
  rcases loops_and_calls_make_progress with
    ⟨hItem, hFirst, hValue, hTurns, -, hChain, hShort, -⟩
  have hStep :
      Loop.path.step 0 (pathInBlock.drop 2) =
        .done (.inl ⟨"b", ⟨4, 5, 1, 5⟩⟩)
          (pathInBlock.drop 4) :=
    rfl
  refine ⟨?_, ?_, ?_, ?_, chain_pathInBlock, ?_, ?_⟩
  · exact hItem .path 0 _ _ _ hStep
  · exact hFirst .typeParams 0 _ _ _ rfl
  · exact hValue 1 _ _ _ _ rfl
  · exact hTurns .path 0 1 _ _ (.turn hStep (.start _))
  · exact hChain 1 _ _ chain_pathInBlock
  · exact hShort 1 _ _ chain_pathInBlock rfl

end Parser

end FeSyntax
