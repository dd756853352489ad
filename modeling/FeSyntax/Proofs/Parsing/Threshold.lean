import FeSyntax.Proofs.Parsing.Completeness
import FeSyntax.Proofs.Parsing.Deepen
import FeSyntax.Proofs.Parsing.Failure

/-
  This file proves that the nesting limit is a threshold.
  Below the threshold of a text, the text needs more levels
  than it may have.  From there on the limit changes
  nothing, and if the text parses then, the threshold is the
  height of its file.

  Key theorems include:
    * `SourceFile.parse_of_le`
    * `SourceFile.parse_unique`
    * `SourceFile.not_runsTooDeep`
    * `SourceFile.nesting_threshold`
-/

namespace FeSyntax

namespace SourceFile

variable {source : String}
variable {limit limit' : Nat}

------------------------------------------------------------
-- Raising The Limit
------------------------------------------------------------

/- More levels change nothing where there are enough. -/
theorem definitions_of_le
    (hEnough : ¬ RunsTooDeep source limit)
    (hLess : limit ≤ limit') :
    Parser.definitions limit' (significantTokens source) =
      Parser.definitions limit
        (significantTokens source) := by
  rcases Parser.definitions_deepens hLess
      (significantTokens source) with hDeep | hSame
  · exact absurd (runsTooDeep_iff.mpr hDeep) hEnough
  · exact hSame

/- A text that has enough levels is not changed by more. -/
theorem parse_of_le
    (hEnough : ¬ RunsTooDeep source limit)
    (hLess : limit ≤ limit') :
    SourceFile.parse source limit' =
      SourceFile.parse source limit := by
  have hSame := definitions_of_le hEnough hLess
  cases hParse : SourceFile.parse source limit with
  | ok f =>
      rcases parse_eq_ok_iff.mp hParse with
        ⟨rest, hRun, hFile⟩
      rw [← hSame] at hRun
      exact parse_eq_ok_iff.mpr ⟨rest, hRun, hFile⟩
  | error e =>
      rcases exists_failsAt hParse with ⟨index, hFails⟩
      rcases failsAt_iff.mp hFails with
        ⟨hIndex, fault, hRun, hError⟩
      cases fault with
      | tooDeep =>
          exact absurd (runsTooDeep_iff.mpr ⟨_, hRun⟩)
            hEnough
      | expected what =>
          rw [← hSame] at hRun
          exact
            (failsAt_iff.mpr
              ⟨hIndex, _, hRun, hError⟩).parse_eq

/- A text that parses keeps its tree when levels are added. -/
theorem parse_eq_ok_of_le
    {f : SourceFile}
    (hParse : SourceFile.parse source limit = .ok f)
    (hLess : limit ≤ limit') :
    SourceFile.parse source limit' = .ok f := by
  have hEnough : ¬ RunsTooDeep source limit := by
    rintro ⟨line, column, hDeep⟩
    rw [hParse] at hDeep
    cases hDeep
  rw [parse_of_le hEnough hLess, hParse]

/- A text has one tree, under all limits that it parses. -/
theorem parse_unique
    {f f' : SourceFile}
    (hFirst : SourceFile.parse source limit = .ok f)
    (hSecond : SourceFile.parse source limit' = .ok f') :
    f = f' := by
  have hRaised :=
    parse_eq_ok_of_le hFirst (Nat.le_max_left limit limit')
  have hRaised' :=
    parse_eq_ok_of_le hSecond
      (Nat.le_max_right limit limit')
  exact Except.ok.inj (hRaised.symm.trans hRaised')

/- Two levels for each token are enough for a text. -/
theorem not_runsTooDeep
    (hLevels :
      2 * (significantTokens source).length < limit) :
    ¬ RunsTooDeep source limit := by
  intro hDeep
  rcases runsTooDeep_iff.mp hDeep with ⟨rest, hRun⟩
  rcases (Parser.definitions_passes limit).stopped hRun with
    ⟨n, hAdvances, hEnough⟩
  have hPassed := hAdvances.length_le
  have hNeeded := hEnough rfl
  omega

------------------------------------------------------------
-- The Threshold
------------------------------------------------------------

/- A text that parses fits into the limit. -/
theorem height_le_of_parse
    {f : SourceFile}
    (hParse : SourceFile.parse source limit = .ok f) :
    f.height ≤ limit :=
  (reads_of_parse hParse).2.2

/- A text needs no more levels than its file's height. -/
theorem not_runsTooDeep_height
    {f : SourceFile}
    (hParse : SourceFile.parse source limit = .ok f) :
    ¬ RunsTooDeep source f.height := by
  rcases reads_of_parse hParse with ⟨hSpelled, hKeyword, -⟩
  rcases exists_parse hKeyword hSpelled (Nat.le_refl _) with
    ⟨g, hParse', -⟩
  intro hDeep
  rcases hDeep with ⟨line, column, hError⟩
  rw [hParse'] at hError
  cases hError

/-
  For every text there is a threshold.  Under each limit
  below it the text runs out of levels, under all others the
  result is the same and is not for want of levels, and if
  that result is a file, the threshold is its height.  So no
  file is higher than the limit, and a limit that is raised
  changes no result but the one for want of levels.
-/
theorem nesting_threshold
    (source : String) :
    (∃ (threshold : Nat)
        (result : Except SyntaxError SourceFile),
      (∀ limit, limit < threshold →
        RunsTooDeep source limit) ∧
      (∀ limit, threshold ≤ limit →
        SourceFile.parse source limit = result) ∧
      (∀ limit line column,
        result ≠
          .error (.nestingTooDeep limit line column)) ∧
      ∀ f, result = .ok f → f.height = threshold) ∧
    (∀ limit f, SourceFile.parse source limit = .ok f →
      f.height ≤ limit) ∧
    ∀ limit limit', limit ≤ limit' →
      ¬ RunsTooDeep source limit →
      SourceFile.parse source limit' =
        SourceFile.parse source limit := by
  classical
  refine
    ⟨?_, fun limit f hParse => height_le_of_parse hParse,
      fun limit limit' hLess hEnough =>
        parse_of_le hEnough hLess⟩
  have hSome : ∃ limit, ¬ RunsTooDeep source limit :=
    ⟨_, not_runsTooDeep (Nat.lt_succ_self _)⟩
  -- The threshold is the least limit that is enough.
  let threshold := Nat.find hSome
  have hEnough : ¬ RunsTooDeep source threshold :=
    Nat.find_spec hSome
  refine
    ⟨threshold, SourceFile.parse source threshold, ?_, ?_, ?_,
      ?_⟩
  · intro limit hLess
    exact not_not.mp (Nat.find_min hSome hLess)
  · intro limit hLess
    exact parse_of_le hEnough hLess
  · intro limit line column hParse
    exact hEnough (runsTooDeep_of_parse hParse)
  · intro f hParse
    have hLow := height_le_of_parse hParse
    have hHigh : threshold ≤ f.height :=
      Nat.find_min' hSome (not_runsTooDeep_height hParse)
    exact Nat.le_antisymm hLow hHigh

/- A type alias with a tuple in a tuple, of height four. -/
def nestedTuple : String :=
  "type pair = ((u8, mut), &x::y);"

theorem nesting_threshold_nestedTuple :
    (∃ f, SourceFile.parse nestedTuple 4 = .ok f ∧
      f.height = 4) ∧
    RunsTooDeep nestedTuple 3 ∧
    ∀ limit, 4 ≤ limit →
      SourceFile.parse nestedTuple limit =
        SourceFile.parse nestedTuple 4 := by
  have hRuns :
      (SourceFile.parse nestedTuple 4).toOption.map height =
        some 4 := by
    decide +kernel
  cases hParse : SourceFile.parse nestedTuple 4 with
  | error e =>
      rw [hParse] at hRuns
      cases hRuns
  | ok f =>
      rw [hParse] at hRuns
      have hHeight : f.height = 4 := Option.some.inj hRuns
      rcases nesting_threshold nestedTuple with
        ⟨⟨threshold, result, hBelow, hSame, hResult, hFile⟩,
          -, hRaised⟩
      have hEnough : ¬ RunsTooDeep nestedTuple 4 := by
        intro hDeep
        rcases hDeep with ⟨line, column, hError⟩
        rw [hParse] at hError
        cases hError
      have hAbove : threshold ≤ 4 := by
        by_contra hNot
        exact hEnough (hBelow 4 (by omega))
      have hExact : f.height = threshold :=
        hFile f ((hSame 4 hAbove).symm.trans hParse)
      refine ⟨⟨f, rfl, hHeight⟩, hBelow 3 (by omega), ?_⟩
      intro limit hLess
      exact (hRaised 4 limit hLess hEnough).trans hParse

end SourceFile

end FeSyntax
