import FeSyntax.Proofs.Parsing.CorrespondDefinition
import FeSyntax.Proofs.Parsing.Threshold
import FeSyntax.Proofs.Parsing.ViableDefinition

/-
  This file proves that a syntax error points at the first
  token that cannot be continued.  The tokens in front of it
  are the start of some text that parses, and together with
  the token of the error they are the start of none.

  Key theorems include:
    * `SourceFile.exists_continuation`
    * `SourceFile.no_continuation`
    * `SourceFile.stops_at_viable_prefix`
-/

namespace FeSyntax

open scoped Computability

open Spelling

/- Definitions in a row are the spelling of a file. -/
theorem SourceFile.exists_of_mem_kstar
    {kinds : List TokenKind}
    (hMem : kinds ∈ Definition.sentences∗) :
    ∃ f : SourceFile, f.KeywordWins ∧
      kinds ∈ f.spellings := by
  rcases mem_sentences_iff.mp
      (Definition.kstar_sentences_le hMem) with
    ⟨ds, hKeyword, hSpelled⟩
  exact ⟨⟨ds, [], .nowhere⟩, hKeyword, hSpelled⟩

namespace SourceFile

variable {source other : String}
variable {limit limit' index : Nat}
variable {e : SyntaxError}

section Expected

variable {what : Expectation}
variable {rest : List Token}
variable
  (hRun :
    Parser.definitions limit (significantTokens source) =
      .stopped (.expected what) rest)

include hRun

/-
  The tokens that were passed are the start of a file, and
  the kinds that are left of it can be written down.
-/
theorem exists_continuation :
    ∃ used more other,
      significantTokens source = used ++ rest ∧
      significantKinds other =
        used.map Token.kind ++ more ∧
      ∃ limit' f,
        SourceFile.parse other limit' = .ok f := by
  have hLexed := lexed_significantTokens source
  rcases (Parser.definitions_viable limit).stopped hLexed
      trivial hRun with
    ⟨used, more, hTokens, hMem, hMore⟩
  rcases (Parser.definitions_passes limit).stopped hRun with
    ⟨_, ⟨used', hTokens', -, hProper⟩, -⟩
  have hSame : used = used' :=
    List.append_cancel_right (hTokens.symm.trans hTokens')
  subst hSame
  have hUsed :
      ∀ kind ∈ used.map Token.kind, kind.IsWritable := by
    intro kind hKind
    rcases List.mem_map.mp hKind with ⟨t, hToken, rfl⟩
    have hMem : t ∈ significantTokens source := by
      rw [hTokens]
      exact List.mem_append_left rest hToken
    exact isWritable_of_mem_significantTokens hMem
      (hProper t hToken)
  rcases exists_significantKinds_eq
      (List.forall_mem_append.mpr ⟨hUsed, hMore⟩) with
    ⟨other, hKinds⟩
  rcases exists_of_mem_kstar hMem with
    ⟨f, hKeyword, hSpelled⟩
  rw [← hKinds] at hSpelled
  rcases exists_parse hKeyword hSpelled (Nat.le_refl _) with
    ⟨g, hParse, -⟩
  exact ⟨used, more, other, hTokens, hKinds, _, g, hParse⟩

/-
  A text that starts with the same tokens, up to the one
  that the parser stopped at, is not parsed either.
-/
theorem no_continuation
    (hStart :
      Aligned .identity
        ((significantTokens source).length - rest.length + 1)
        (significantTokens source)
        (significantTokens other))
    (f : SourceFile) :
    SourceFile.parse other limit ≠ .ok f := by
  intro hParse
  rcases parse_eq_ok_iff.mp hParse with ⟨rest', hOther, -⟩
  rcases Parser.definitions_corresponds limit _ _ _ hStart
    with ⟨used, hTokens, hAgree⟩
  rw [hRun] at hTokens hAgree
  have hLength := congrArg List.length hTokens
  rw [List.length_append, Outcome.rest] at hLength
  have hSame := hAgree (by omega)
  rw [hOther] at hSame
  cases hSame

end Expected

/- Kinds of which one list starts with the other. -/
theorem aligned_of_isPrefix
    (hStart :
      (significantKinds source).take (index + 1) <+:
        significantKinds other)
    (hIndex : index < (significantKinds source).length) :
    Aligned .identity (index + 1) (significantTokens source)
      (significantTokens other) := by
  have hTake := List.prefix_iff_eq_take.mp hStart
  rw [List.length_take_of_le hIndex, significantKinds,
    significantKinds, ← List.map_take,
    ← List.map_take] at hTake
  refine ⟨lexed_significantTokens source, ?_⟩
  rw [← hTake, Renaming.kind_identity]
  rfl

/-
  A text that fails, but not for want of levels, does so at
  a significant token.  The tokens in front of it are the
  start of some text that parses under some limit.  If it is
  not the end of the text, no text that starts with those
  tokens and with that one parses under any limit.
-/
theorem stops_at_viable_prefix
    (hParse : SourceFile.parse source limit = .error e)
    (hFault :
      ∀ n line column, e ≠ .nestingTooDeep n line column) :
    ∃ index, FailsAt source limit index e ∧
      (∃ other limit' f,
        SourceFile.parse other limit' = .ok f ∧
        (significantKinds source).take index <+:
          significantKinds other) ∧
      (index < (significantKinds source).length →
        ∀ other limit' f,
          (significantKinds source).take (index + 1) <+:
            significantKinds other →
          SourceFile.parse other limit' ≠ .ok f) := by
  rcases exists_failsAt hParse with ⟨index, hFails⟩
  rcases hFails.exists_expected hFault with ⟨what, hRun⟩
  refine ⟨index, hFails, ?_, ?_⟩
  · rcases exists_continuation hRun with
      ⟨used, more, other, hTokens, hKinds, limit', f,
        hOther⟩
    refine ⟨other, limit', f, hOther, ?_⟩
    have hUsed :
        used = (significantTokens source).take index :=
      List.append_cancel_right
        (hTokens.symm.trans
          (List.take_append_drop _ _).symm)
    rw [hKinds, hUsed, List.map_take, significantKinds]
    exact List.prefix_append _ _
  · intro hIndex other limit' f hStart hOther
    have hLength :
        (significantKinds source).length =
          (significantTokens source).length :=
      List.length_map _
    -- Under the higher limit both texts end as before.
    have hEnough : ¬ RunsTooDeep source limit := by
      intro hDeep
      rcases runsTooDeep_iff.mp hDeep with ⟨rest, hSame⟩
      rw [hRun] at hSame
      cases hSame
    have hEnough' : ¬ RunsTooDeep other limit' := by
      intro hDeep
      rcases hDeep with ⟨line, column, hSame⟩
      rw [hOther] at hSame
      cases hSame
    have hMore :=
      definitions_of_le hEnough
        (Nat.le_max_left limit limit')
    have hMore' :=
      parse_of_le hEnough' (Nat.le_max_right limit limit')
    rw [hRun] at hMore
    rw [hOther] at hMore'
    refine no_continuation hMore ?_ f hMore'
    rw [List.length_drop]
    have hPassed :
        (significantTokens source).length -
            ((significantTokens source).length - index) +
            1 =
          index + 1 := by
      omega
    rw [hPassed]
    exact aligned_of_isPrefix hStart hIndex

/- A function with a comma behind its last parameter. -/
def trailingComma : String :=
  "fn f(x: u8, /* no more */) \x7b\x7d"

theorem stops_at_viable_prefix_trailingComma :
    (∃ other limit f,
      SourceFile.parse other limit = .ok f ∧
      (significantKinds trailingComma).take 7 <+:
        significantKinds other) ∧
    ∀ other limit f,
      (significantKinds trailingComma).take 8 <+:
        significantKinds other →
      SourceFile.parse other limit ≠ .ok f := by
  have hError :
      (SourceFile.parse trailingComma 64).isOk = false := by
    decide +kernel
  have hLeft :
      (Cursor.ofString trailingComma
        64).sourceFile.2.rest.length = 3 := by
    decide +kernel
  have hLength :
      (significantTokens trailingComma).length = 10 := by
    decide +kernel
  have hEnough : ¬ RunsTooDeep trailingComma 64 :=
    not_runsTooDeep (by omega)
  cases hParse : SourceFile.parse trailingComma 64 with
  | ok f =>
      rw [hParse] at hError
      cases hError
  | error e =>
      have hFault :
          ∀ n line column,
            e ≠ .nestingTooDeep n line column := by
        rintro n line column rfl
        exact hEnough (runsTooDeep_of_parse hParse)
      rcases stops_at_viable_prefix hParse hFault with
        ⟨index, ⟨hIndex, stopped, hRun, hRest⟩, hFront,
          hNext⟩
      rw [hRun, hRest, List.length_drop, hLength] at hLeft
      have hPlace : index = 7 := by omega
      subst hPlace
      refine ⟨hFront, hNext ?_⟩
      rw [significantKinds, List.length_map, hLength]
      omega

end SourceFile

end FeSyntax
