import FeSyntax.Proofs.Parsing.AdvanceDefinition
import FeSyntax.Proofs.Parsing.Source

/-
  This file says where a source text fails to parse.  The
  parser of the text stands at one of its significant tokens
  or behind them all when it stops, and the error is made of
  its fault and of that token.  A text that parses has no
  error among its tokens.

  Key definitions include:
    * `SourceFile.stopAt`
    * `SourceFile.FailsAt`
    * `SourceFile.RunsTooDeep`

  Key theorems include:
    * `SourceFile.noErrors_of_parse`
    * `SourceFile.exists_failsAt`
    * `SourceFile.failsAt_iff`
    * `SourceFile.runsTooDeep_iff`
-/

namespace FeSyntax

/- Only a fault for want of levels is shown as one. -/
theorem SyntaxError.ofFault_expected_ne
    {what : Expectation}
    {t : Token}
    {limit n line column : Nat} :
    SyntaxError.ofFault limit (.expected what) t ≠
      .nestingTooDeep n line column := by
  intro hSame
  rw [SyntaxError.ofFault] at hSame
  cases hKind : t.kind <;> simp [hKind] at hSame

namespace SourceFile

/- A text that parses is passed to its end. -/
theorem noErrors_of_parse
    {source : String}
    {limit : Nat}
    {f : SourceFile}
    (hParse : SourceFile.parse source limit = .ok f) :
    NoErrors (tokenize source) := by
  rcases parse_eq_ok_iff.mp hParse with ⟨rest, hRun, -⟩
  rcases (Parser.definitions_passes limit).done hRun with
    ⟨used, hTokens, -, hNone⟩
  refine noErrors_of_significantTokens ?_
  rw [hTokens, Parser.rest_of_definitions hRun,
    List.append_nil]
  exact hNone

------------------------------------------------------------
-- Where A Text Fails
------------------------------------------------------------

/-
  The significant token of an index, or else the token that
  stands for the end of the text.
-/
def stopAt
    (source : String)
    (index : Nat) : Token :=
  ((significantTokens source).drop index).headD
    (Cursor.stopOf (tokenize source))

/-
  A fresh cursor on the text fails to parse it as a file,
  and is left at the significant token of that index.  The
  index behind all tokens is the end of the text.
-/
def FailsAt
    (source : String)
    (limit index : Nat)
    (e : SyntaxError) : Prop :=
  index ≤ (significantTokens source).length ∧
    ∃ stopped : Cursor,
      (Cursor.ofString source limit).sourceFile =
        (.error e, stopped) ∧
      stopped.rest = (significantTokens source).drop index

/-
  Under the limit, the text fails for want of levels.
-/
def RunsTooDeep
    (source : String)
    (limit : Nat) : Prop :=
  ∃ line column,
    SourceFile.parse source limit =
      .error (.nestingTooDeep limit line column)

section Runs

variable {source : String}
variable {limit index : Nat}
variable {e : SyntaxError}

/- What a fresh cursor on the text does. -/
theorem sourceFile_of_done
    {ds : List Definition}
    {rest : List Token}
    (hRun :
      Parser.definitions limit (significantTokens source) =
        .done ds rest) :
    ∃ stopped f,
      (Cursor.ofString source limit).sourceFile =
        (.ok f, stopped) := by
  have hSame :
      Parser.definitions (Cursor.ofString source limit).limit
          (Cursor.ofString source limit).rest =
        .done ds rest :=
    hRun
  rw [Cursor.sourceFile, Cursor.run, hSame]
  exact ⟨_, _, rfl⟩

theorem sourceFile_of_stopped
    {fault : Fault}
    {rest : List Token}
    (hRun :
      Parser.definitions limit (significantTokens source) =
        .stopped fault rest) :
    (Cursor.ofString source limit).sourceFile =
      ( .error
          (.ofFault limit fault
            (rest.headD (Cursor.stopOf (tokenize source)))),
        (Cursor.ofString source limit).moveTo rest ) := by
  have hSame :
      Parser.definitions (Cursor.ofString source limit).limit
          (Cursor.ofString source limit).rest =
        .stopped fault rest :=
    hRun
  rw [Cursor.sourceFile, Cursor.run, hSame]
  rfl

/- A text that fails does so at one of its tokens. -/
theorem failsAt_iff :
    FailsAt source limit index e ↔
      index ≤ (significantTokens source).length ∧
        ∃ fault,
          Parser.definitions limit
              (significantTokens source) =
            .stopped fault
              ((significantTokens source).drop index) ∧
          e = .ofFault limit fault
            (stopAt source index) := by
  refine and_congr_right fun hIndex => ?_
  cases hRun :
      Parser.definitions limit
        (significantTokens source) with
  | done ds rest =>
      rcases sourceFile_of_done hRun with ⟨c, f, hOk⟩
      rw [hOk]
      constructor
      · intro hFails
        rcases hFails with ⟨_, hSame, -⟩
        cases hSame
      · intro hStopped
        rcases hStopped with ⟨_, hSame, -⟩
        cases hSame
  | stopped fault rest =>
      rw [sourceFile_of_stopped hRun]
      constructor
      · intro hFails
        rcases hFails with ⟨stopped, hSame, hRest⟩
        cases hSame
        have hSplit :
            rest = (significantTokens source).drop index :=
          hRest
        subst hSplit
        exact ⟨fault, rfl, rfl⟩
      · intro hStopped
        rcases hStopped with ⟨fault', hSame, rfl⟩
        cases hSame
        exact ⟨_, rfl, rfl⟩

theorem FailsAt.parse_eq
    (hFails : FailsAt source limit index e) :
    SourceFile.parse source limit = .error e := by
  rcases hFails with ⟨-, stopped, hRun, -⟩
  rw [SourceFile.parse, hRun]

/- Every error but one asks for something else. -/
theorem FailsAt.exists_expected
    (hFails : FailsAt source limit index e)
    (hFault :
      ∀ n line column, e ≠ .nestingTooDeep n line column) :
    ∃ what,
      Parser.definitions limit (significantTokens source) =
        .stopped (.expected what)
          ((significantTokens source).drop index) := by
  rcases failsAt_iff.mp hFails with ⟨-, fault, hRun, rfl⟩
  cases fault with
  | tooDeep => exact absurd rfl (hFault _ _ _)
  | expected what => exact ⟨what, hRun⟩

/- Every text that does not parse fails somewhere. -/
theorem exists_failsAt
    (hParse : SourceFile.parse source limit = .error e) :
    ∃ index, FailsAt source limit index e := by
  cases hRun :
      Parser.definitions limit
        (significantTokens source) with
  | done ds rest =>
      rcases sourceFile_of_done hRun with ⟨c, f, hOk⟩
      rw [SourceFile.parse, hOk] at hParse
      cases hParse
  | stopped fault rest =>
      rcases (Parser.definitions_passes limit).stopped hRun
        with ⟨_, ⟨used, hTokens, -⟩, -⟩
      have hRest :
          rest =
            (significantTokens source).drop used.length := by
        rw [hTokens, List.drop_left]
      refine ⟨used.length, failsAt_iff.mpr ⟨?_, fault, ?_⟩⟩
      · rw [hTokens, List.length_append]
        exact Nat.le_add_right _ _
      · rw [SourceFile.parse,
          sourceFile_of_stopped hRun] at hParse
        cases hParse
        rw [stopAt, ← hRest]
        exact ⟨hRun, rfl⟩

------------------------------------------------------------
-- Running Out Of Levels
------------------------------------------------------------

/- The error for want of levels shows the limit. -/
theorem runsTooDeep_of_parse
    {n line column : Nat}
    (hParse :
      SourceFile.parse source limit =
        .error (.nestingTooDeep n line column)) :
    RunsTooDeep source limit := by
  rcases exists_failsAt hParse with ⟨index, hFails⟩
  rcases failsAt_iff.mp hFails with
    ⟨-, fault, hRun, hError⟩
  cases fault with
  | expected what =>
      exact absurd hError.symm SyntaxError.ofFault_expected_ne
  | tooDeep =>
      cases hError
      exact ⟨_, _, hParse⟩

theorem runsTooDeep_iff :
    RunsTooDeep source limit ↔
      ∃ rest,
        Parser.definitions limit
            (significantTokens source) =
          .stopped .tooDeep rest := by
  constructor
  · intro hDeep
    rcases hDeep with ⟨line, column, hParse⟩
    rcases exists_failsAt hParse with ⟨index, hFails⟩
    rcases failsAt_iff.mp hFails with
      ⟨-, fault, hRun, hError⟩
    cases fault with
    | tooDeep => exact ⟨_, hRun⟩
    | expected what =>
        exact absurd hError.symm
          SyntaxError.ofFault_expected_ne
  · intro hDeep
    rcases hDeep with ⟨rest, hRun⟩
    rw [RunsTooDeep, SourceFile.parse,
      sourceFile_of_stopped hRun]
    exact ⟨_, _, rfl⟩

end Runs

end SourceFile

end FeSyntax
