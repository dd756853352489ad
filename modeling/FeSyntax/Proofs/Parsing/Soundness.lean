import FeSyntax.Proofs.Parsing.SoundDefinition
import FeSyntax.Proofs.Parsing.Source

/-
  This file proves that parsing a source text is sound.  If
  a text parses as a file, its significant tokens are a
  spelling of the file, from the first to the last of them,
  and the file is one in which the keyword wins.

  Key theorems include:
    * `SourceFile.reads_of_parse`
    * `SourceFile.parse_sound`
-/

namespace FeSyntax

namespace SourceFile

/- A parsed file is spelled by the text, and it fits. -/
theorem reads_of_parse
    {source : String}
    {limit : Nat}
    {f : SourceFile}
    (hParse : SourceFile.parse source limit = .ok f) :
    significantKinds source ∈ f.spellings ∧
      f.Fits limit := by
  rcases parse_eq_ok_iff.mp hParse with ⟨rest, hDone, -⟩
  have hLexed := lexed_significantTokens source
  rcases Parser.definitions_sound hLexed hDone with
    ⟨hReads, hFits, rfl⟩
  exact ⟨reads_nil_iff.mp hReads, fits_iff.mpr hFits⟩

/-
  No token is lost and none is made up: the significant
  tokens of a text that parses are a spelling of its file.
  Every path in the file has a segment, and the keyword wins
  wherever a word can be read in two ways.
-/
theorem parse_sound
    {source : String}
    {limit : Nat}
    {f : SourceFile}
    (hParse : SourceFile.parse source limit = .ok f) :
    significantKinds source ∈ f.spellings ∧
      f.KeywordWins := by
  rcases reads_of_parse hParse with ⟨hSpelled, hKeyword, -⟩
  exact ⟨hSpelled, hKeyword⟩

/- Keywords as names, and an arm without a semicolon. -/
def keywordsAsNames : String :=
  "fn match() \x7b match a \x7b _ => mut x::let() => 1; \x7d \x7d"

theorem parse_sound_keywordsAsNames :
    ∃ f,
      SourceFile.parse keywordsAsNames 8 = .ok f ∧
      significantKinds keywordsAsNames ∈ f.spellings ∧
      f.KeywordWins := by
  have hOk :
      (SourceFile.parse keywordsAsNames 8).isOk = true := by
    decide +kernel
  cases hParse : SourceFile.parse keywordsAsNames 8 with
  | error e =>
      rw [hParse] at hOk
      cases hOk
  | ok f => exact ⟨f, rfl, parse_sound hParse⟩

end SourceFile

end FeSyntax
