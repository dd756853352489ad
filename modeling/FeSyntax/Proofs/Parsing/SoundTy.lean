import FeSyntax.Proofs.Parsing.Dispatch
import FeSyntax.Proofs.Parsing.FirstToken
import FeSyntax.Proofs.Parsing.Sound
import FeSyntax.Proofs.Syntax.Fits

/-
  This file proves that the parsers of types and patterns
  are sound: with some number of levels they give only trees
  that fit into these levels, and they read a spelling of
  the tree.

  Key theorems include:
    * `Parser.ty_sound`
    * `Parser.pattern_sound`
-/

namespace FeSyntax

namespace Parser

variable {n : Nat}
variable {ts rest : List Token}

------------------------------------------------------------
-- Types
------------------------------------------------------------

/-
  A primitive type has been read, and fits into one level.
-/
theorem primitiveTy_sound :
    primitiveTy.Sound Ty.spellings (Ty.Fits (n + 1)) := by
  intro ts rest t hLexed hParse
  simp only [primitiveTy, bind_eq_done, pure_eq_done,
    Prod.exists, accept_eq_done] at hParse
  rcases hParse with
    ⟨kind, span, _, ⟨u, rfl, hKind, rfl⟩, rfl, rfl⟩
  refine ⟨?_, Ty.fits_primitive⟩
  rw [Ty.spellings, reads_written_iff]
  refine ⟨u, rfl, ?_⟩
  cases hToken : u.kind with
  | primitive p =>
      rw [hToken] at hKind
      exact congrArg _ (Option.some.inj hKind)
  | _ =>
      rw [hToken] at hKind
      cases hKind

section Types

variable {inner : Parser Ty}
variable (hInner : inner.Sound Ty.spellings (Ty.Fits n))

include hInner

/-
  A reference has been read, and takes one level more than
  its type.
-/
theorem referenceTy_sound :
    (referenceTy inner).Sound Ty.spellings
      (Ty.Fits (n + 1)) := by
  intro ts rest t hLexed hParse
  simp only [referenceTy, bind_eq_done,
    pure_eq_done] at hParse
  rcases hParse with
    ⟨start, ts₁, hStart, mutable, ts₂, hMut, t, _, hParse,
     rfl, rfl⟩
  rcases reads_of_keyword? hMut with ⟨hReadsMut, hNext⟩
  have hLead := (reads_of_punct hStart).mul hReadsMut
  rcases hInner (hLead.lexed hLexed) hParse with
    ⟨hReads, hFits⟩
  refine ⟨?_, Ty.fits_reference.mpr ⟨?_, hFits⟩⟩
  · rw [Ty.spellings]
    exact hLead.mul hReads
  · intro hNotMut
    rw [Ty.beginsWith_iff hReads hFits.1]
    exact hNext hNotMut

/-
  A tuple has been read, and takes one level more than its
  elements.
-/
theorem tupleTy_sound :
    (tupleTy inner).Sound Ty.spellings
      (Ty.Fits (n + 1)) := by
  intro ts rest t hLexed hParse
  simp only [tupleTy, bind_eq_done, pure_eq_done,
    Prod.exists] at hParse
  rcases hParse with
    ⟨start, ts₁, hStart, elements, stop, _, hElements, rfl,
     rfl⟩
  have hOpen := reads_of_punct hStart
  rcases commaList_sound hInner (hOpen.lexed hLexed)
      hElements with
    ⟨hReads, hFits⟩
  refine ⟨?_, Ty.fits_tuple.mpr hFits⟩
  rw [Ty.spellings, Ty.spellingsAll_eq, mul_assoc]
  exact hOpen.mul hReads

/-
  A path that is given is no primitive type, since that
  would have come first.
-/
theorem tyOf_sound :
    (tyOf inner).Sound Ty.spellings (Ty.Fits (n + 1)) := by
  intro ts rest t hLexed hParse
  rcases tyOf_eq_done.mp hParse with
    ⟨kind, -, hParse⟩ | ⟨-, hParse⟩ | ⟨-, hParse⟩ |
    ⟨kind, hNext, hKind, -, p, hPath, rfl⟩
  · exact primitiveTy_sound hLexed hParse
  · exact referenceTy_sound hInner hLexed hParse
  · exact tupleTy_sound hInner hLexed hParse
  · rcases path_sound hLexed hPath with ⟨hReads, hSegments⟩
    refine ⟨by rwa [Ty.spellings], Ty.fits_path.mpr ?_⟩
    rw [Path.isTypePath_iff hReads hSegments, hNext]
    intro primitive hSame
    exact hKind primitive (Option.some.inj hSame)

end Types

/- A type expression fits into the levels it is given. -/
theorem ty_sound
    (n : Nat) :
    (ty n).Sound Ty.spellings (Ty.Fits n) := by
  induction n with
  | zero =>
      intro ts rest t hLexed hParse
      exact absurd hParse fail_ne_done
  | succ n ih => exact tyOf_sound ih

------------------------------------------------------------
-- Patterns
------------------------------------------------------------

/- A wildcard has been read, and fits into one level. -/
theorem wildcardPattern_sound :
    wildcardPattern.Sound Pattern.spellings
      (Pattern.Fits (n + 1)) := by
  intro ts rest x hLexed hParse
  simp only [wildcardPattern, bind_eq_done,
    pure_eq_done] at hParse
  rcases hParse with ⟨span, _, hKeyword, rfl, rfl⟩
  refine ⟨?_, Pattern.fits_wildcard⟩
  rw [Pattern.spellings]
  exact reads_of_keyword hKeyword

section Patterns

variable {inner : Parser Pattern}
variable
  (hInner : inner.Sound Pattern.spellings (Pattern.Fits n))

include hInner

/- The first token must not be a truth value or `_`. -/
theorem namedPattern_sound
    {kind : TokenKind}
    {x : Pattern}
    (hLexed : Lexed ts)
    (hNext : nextKind ts = some kind)
    (hBool : ∀ b, kind ≠ .bool b)
    (hWildcard : kind ≠ .keyword .underscore)
    (hParse : namedPattern inner ts = .done x rest) :
    Reads ts x.spellings rest ∧ x.Fits (n + 1) := by
  have hFirst :
      (∀ b, nextKind ts ≠ some (.bool b)) ∧
        nextKind ts ≠ some (.keyword .underscore) := by
    rw [hNext]
    exact
      ⟨fun b hSame => hBool b (Option.some.inj hSame),
        fun hSame => hWildcard (Option.some.inj hSame)⟩
  rcases namedPattern_eq_done.mp hParse with
    ⟨p, mid, hPath, hParse⟩
  rcases path_sound hLexed hPath with
    ⟨hReadsPath, hSegments⟩
  have hPattern : p.IsPatternPath :=
    (Path.isPatternPath_iff hReadsPath hSegments).mpr hFirst
  rcases hParse with ⟨-, rfl, name, hName, rfl⟩ |
    ⟨start, mid', hStart, elements, stop, hElements, rfl⟩
  · have hSingle : p.spellings = name.spellings := by
      simp [Path.spellings, hName, Spelling.separated]
    refine ⟨?_, Pattern.fits_identifier.mpr ?_⟩
    · rw [Pattern.spellings, ← hSingle]
      exact hReadsPath
    · have hReads :
          Reads ts (Path.spellings ⟨[name], name.span⟩)
            mid := by
        simpa [Path.spellings, hName] using hReadsPath
      exact
        (Path.isPatternPath_iff hReads (by simp)).mpr hFirst
  · have hLead := hReadsPath.mul (reads_of_punct hStart)
    rcases commaList_sound hInner (hLead.lexed hLexed)
        hElements with
      ⟨hReads, hFits⟩
    refine
      ⟨?_, Pattern.fits_tupleStruct.mpr ⟨hPattern, hFits⟩⟩
    rw [Pattern.spellings, Pattern.spellingsAll_eq,
      mul_assoc]
    exact hLead.mul hReads

/- Whichever form a pattern has, it has been read. -/
theorem patternOf_sound :
    (patternOf inner).Sound Pattern.spellings
      (Pattern.Fits (n + 1)) := by
  intro ts rest x hLexed hParse
  rcases patternOf_eq_done.mp hParse with
    ⟨-, hParse⟩ | ⟨kind, -, -, l, hLiteral, rfl⟩ |
    ⟨kind, hNext, hWildcard, hNotLiteral, -, hParse⟩
  · exact wildcardPattern_sound hLexed hParse
  · rcases literal_sound hLexed hLiteral with ⟨hReads, -⟩
    refine ⟨?_, Pattern.fits_literal⟩
    rwa [Pattern.spellings]
  · refine namedPattern_sound hInner hLexed hNext ?_
      hWildcard hParse
    rintro b rfl
    exact hNotLiteral rfl

end Patterns

/- A pattern fits into the levels it is given. -/
theorem pattern_sound
    (n : Nat) :
    (pattern n).Sound Pattern.spellings
      (Pattern.Fits n) := by
  induction n with
  | zero =>
      intro ts rest x hLexed hParse
      exact absurd hParse fail_ne_done
  | succ n ih => exact patternOf_sound ih

end Parser

end FeSyntax
