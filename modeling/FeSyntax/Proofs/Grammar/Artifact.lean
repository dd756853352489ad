import FeSyntax.Grammar.Handle
import FeSyntax.Proofs.Json.Reading
import FeSyntax.Proofs.Json.Record

/-
  This file proves that grammars survive being saved and
  loaded again.  Nothing is asked of the names and tables of
  a grammar, which may hold any texts, and any of them more
  than once.  Only the version decides whether the saved
  grammar is loaded.

  Key theorems include:
    * `KindEntry.decode?_encode`
    * `Grammar.decode?_encode`
    * `Grammar.encode_written`
    * `Grammar.ofArtifact_of_toArtifact`
    * `Grammar.ofArtifact_of_isSupported`
    * `Grammar.artifact_reloads`
    * `GrammarHandle.load_toArtifact`
-/

namespace FeSyntax

------------------------------------------------------------
-- JSON Form
------------------------------------------------------------

namespace KindEntry

/- A kind of node is read back from its record. -/
@[simp] theorem decode?_encode
    (e : KindEntry) :
    decode? e.encode = some e := by
  rw [decode?, encode, Json.toRecord?_record]
  · simp
  · rfl
  · decide

@[simp] theorem encode_written
    (e : KindEntry) :
    e.encode.IsWritten :=
  .record (by simp)

end KindEntry

namespace Grammar

/-
  A grammar is read back from its record, if its version
  fits the type that versions have.
-/
theorem decode?_encode
    {g : Grammar}
    (hVersion : g.version < versionBound) :
    decode? g.encode = some g := by
  have hKinds :
      (g.kinds.map KindEntry.encode).mapM
          KindEntry.decode? =
        some g.kinds :=
    Json.mapM_decode (fun e _ => e.decode?_encode)
  have hFields :
      (g.fields.map Json.ofText).mapM Json.toText? =
        some g.fields :=
    Json.mapM_decode (fun s _ => Json.toText?_ofText s)
  rw [decode?, encode, Json.toRecord?_record]
  · simp [Json.toNat?_ofNat hVersion, hKinds, hFields]
  · rfl
  · decide

/- The record of a grammar can be written as a text. -/
theorem encode_written
    (g : Grammar) :
    g.encode.IsWritten :=
  .record (by simp)

------------------------------------------------------------
-- Saving And Loading
------------------------------------------------------------

/- An artifact starts with a brace. -/
theorem toArtifact_not_blank
    (g : Grammar) :
    Text.isAllBlank g.toArtifact = false := by
  have hText := Json.toList_pretty g.encode
  rw [Text.isAllBlank, String.all_bool_eq, toArtifact,
    hText]
  rfl

/- The versions that are supported are 13 and 14. -/
theorem isSupported_iff
    (version : Nat) :
    IsSupported version ↔ version = 13 ∨ version = 14 := by
  rw [IsSupported, oldestVersion, latestVersion]
  omega

/- Loading what was saved depends on the version only. -/
theorem ofArtifact_of_toArtifact
    {g : Grammar}
    (hVersion : g.version < versionBound) :
    ofArtifact g.toArtifact =
      if IsSupported g.version then
        .ok g
      else
        .error (.unsupportedVersion g.version) := by
  have hRead : Json.read? g.toArtifact = some g.encode :=
    Json.read?_pretty g.encode_written
  rw [ofArtifact, toArtifact_not_blank, hRead,
    Option.bind_some, decode?_encode hVersion]
  rfl

/-
  A grammar with a supported version is in its artifact,
  since such a version fits the type that versions have.
-/
theorem ofArtifact_of_isSupported
    {g : Grammar}
    (hVersion : IsSupported g.version) :
    ofArtifact g.toArtifact = .ok g := by
  have hBelow : g.version < versionBound :=
    Nat.lt_of_le_of_lt hVersion.2 (by decide)
  rw [ofArtifact_of_toArtifact hBelow, if_pos hVersion]

/-
  A grammar with a supported version is the one that is
  loaded from its artifact, and is saved as the same text
  again.  Any other version is refused.
-/
theorem artifact_reloads
    (g : Grammar)
    (hVersion : g.version < versionBound) :
    (g.version = 13 ∨ g.version = 14 →
      ofArtifact g.toArtifact = .ok g ∧
      (ofArtifact g.toArtifact).map toArtifact =
        .ok g.toArtifact) ∧
    (¬ (g.version = 13 ∨ g.version = 14) →
      ofArtifact g.toArtifact =
        .error (.unsupportedVersion g.version)) := by
  have hLoaded := ofArtifact_of_toArtifact hVersion
  constructor
  · intro hSupported
    rw [if_pos ((isSupported_iff g.version).mpr hSupported)]
      at hLoaded
    rw [hLoaded]
    exact ⟨rfl, rfl⟩
  · intro hOther
    rw [if_neg (hOther ∘ (isSupported_iff g.version).mp)]
      at hLoaded
    exact hLoaded

/-
  A grammar whose texts are empty, are repeated, or hold
  quotes, backslashes and control characters.
-/
def troublesome
    (version : Nat) : Grammar where
  name := "a \"name\" \\ of\ntwo lines\x00"
  version := version
  kinds :=
    [⟨"", true⟩, ⟨"\t\"\x1f", false⟩, ⟨"", true⟩]
  fields := ["\\u0041", "", "é\x7f", ""]

/-
  Names with quotes and line feeds are kept, as are kinds
  that occur twice.  The version 15 is refused.
-/
theorem troublesome_reloads :
    (troublesome 13).version < versionBound ∧
    ofArtifact (troublesome 13).toArtifact =
      .ok (troublesome 13) ∧
    (troublesome 15).version < versionBound ∧
    ofArtifact (troublesome 15).toArtifact =
      .error (.unsupportedVersion 15) := by
  have hOld : (troublesome 13).version < versionBound := by
    decide
  have hNew : (troublesome 15).version < versionBound := by
    decide
  rcases artifact_reloads _ hOld with ⟨hLoads, _⟩
  rcases artifact_reloads _ hNew with ⟨_, hFails⟩
  exact
    ⟨hOld, (hLoads (by decide)).1, hNew,
      hFails (by decide)⟩

end Grammar

------------------------------------------------------------
-- Handles
------------------------------------------------------------

namespace GrammarHandle

/-
  What is loaded from the artifact of a grammar has the same
  grammar, but its data are its own.
-/
theorem load_toArtifact
    (handle : GrammarHandle)
    (n : Nat)
    (hVersion :
      Grammar.IsSupported handle.grammar.version) :
    load n handle.grammar.toArtifact =
      .ok ⟨.loaded n, handle.grammar⟩ := by
  rw [load, Grammar.ofArtifact_of_isSupported hVersion]
  rfl

end GrammarHandle

end FeSyntax
