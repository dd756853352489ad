import FeSyntax.Grammar.Basic
import FeSyntax.Json.Printer
import FeSyntax.Json.Reader
import FeSyntax.Text.Blank

/-
  This file defines grammar artifacts, the JSON documents
  that grammars are saved in.

  Key definitions include:
    * `Grammar.encode`
    * `Grammar.decode?`
    * `Grammar.toArtifact`
    * `Grammar.ofArtifact`
-/

namespace FeSyntax

------------------------------------------------------------
-- JSON Form
------------------------------------------------------------

namespace KindEntry

/- The JSON form of an entry. -/
def encode
    (e : KindEntry) : Json :=
  .record [("kind", .ofText e.kind), ("named", .bool e.isNamed)]

/- The entry that a document stands for. -/
def decode?
    (j : Json) : Option KindEntry := do
  match ← j.toRecord? ["kind", "named"] with
  | [some kind, some named] =>
      let kind ← kind.toText?
      let isNamed ← named.toBool?
      pure ⟨kind, isNamed⟩
  | _ => none

end KindEntry

namespace Grammar

/- The JSON form of a grammar. -/
def encode
    (g : Grammar) : Json :=
  .record
    [ ("name", .ofText g.name),
      ("version", .ofNat g.version),
      ("node_kinds", .array (g.kinds.map KindEntry.encode)),
      ("fields", .array (g.fields.map .ofText)) ]

/- Versions are numbers of 32 bits. -/
def versionBound : Nat :=
  Nat.pow 2 32

/- The grammar that a document stands for. -/
def decode?
    (j : Json) : Option Grammar := do
  let keys := ["name", "version", "node_kinds", "fields"]
  match ← j.toRecord? keys with
  | [some name, some version, some kinds, some fields] =>
      let name ← name.toText?
      let version ← version.toNat? versionBound
      let kinds ← kinds.toItems?
      let kinds ← kinds.mapM KindEntry.decode?
      let fields ← fields.toItems?
      let fields ← fields.mapM Json.toText?
      pure ⟨name, version, kinds, fields⟩
  | _ => none

------------------------------------------------------------
-- Artifacts
------------------------------------------------------------

/- The text of the artifact of a grammar. -/
def toArtifact
    (g : Grammar) : String :=
  g.encode.pretty

/-
  The grammar of an artifact.  Its version has to be a
  supported one, and nothing else is checked.
-/
def ofArtifact
    (text : String) : Except GrammarError Grammar :=
  if Text.isAllBlank text then
    .error .emptyArtifact
  else
    match (Json.read? text).bind decode? with
    | none => .error .malformedArtifact
    | some g =>
        if IsSupported g.version then
          .ok g
        else
          .error (.unsupportedVersion g.version)

end Grammar

end FeSyntax
