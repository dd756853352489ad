import FeSyntax.NodeKind
import FeSyntax.Text.Quoted

/-
  This file defines grammars: the tables that number the
  node kinds and the fields of syntax trees.  A grammar can
  be used when it has a supported version, the right name,
  and a number for every kind and field that trees need.

  Key definitions include:
    * `KindEntry`
    * `Grammar`
    * `Grammar.builtin`
    * `Grammar.kindAt?`
    * `Grammar.kindId?`
    * `Grammar.fieldAt?`
    * `Grammar.fieldId?`
    * `GrammarError`
    * `Grammar.problem?`
    * `Grammar.summary`
-/

namespace FeSyntax

------------------------------------------------------------
-- Grammars
------------------------------------------------------------

/- An entry of the table of node kinds. -/
structure KindEntry where
  kind : String
  isNamed : Bool
deriving BEq, ReflBEq, LawfulBEq, Repr

/- A name, a version and the tables of kinds and fields. -/
structure Grammar where
  name : String
  version : Nat
  kinds : List KindEntry
  fields : List String
deriving BEq, ReflBEq, LawfulBEq, Repr

namespace Grammar

/- The name that every usable grammar has. -/
def requiredName : String :=
  "fe"

/- The version that the built-in grammar has. -/
def latestVersion : Nat :=
  14

/- The oldest version that can still be used. -/
def oldestVersion : Nat :=
  13

/- The versions that can be used. -/
def IsSupported
    (version : Nat) : Prop :=
  oldestVersion ≤ version ∧ version ≤ latestVersion

instance
    (version : Nat) :
    Decidable (IsSupported version) := by
  unfold IsSupported
  infer_instance

/- The node kinds that trees need, named ones first. -/
def requiredKinds : List KindEntry :=
  NamedKind.all.map (fun k => ⟨k.name, true⟩) ++
    anonymousKinds.map (fun k => ⟨k, false⟩)

/- The fields that trees need. -/
def requiredFields : List String :=
  FieldName.all.map FieldName.label

/-
  The built-in grammar.  Its table of kinds starts with the
  kind of the end and closes with the kind of errors.
-/
def builtin : Grammar where
  name := requiredName
  version := latestVersion
  kinds :=
    ⟨"end", false⟩ :: (requiredKinds ++ [⟨"ERROR", true⟩])
  fields := requiredFields

------------------------------------------------------------
-- Numbers Of Kinds And Fields
------------------------------------------------------------

/- The greatest number of a kind or a field. -/
def maxId : Nat :=
  Nat.pow 2 16 - 1

/- A number that is not too great to be used. -/
def usableId?
    (id : Nat) : Option Nat :=
  if id ≤ maxId then some id else none

/- The entry with a number; kinds are counted from 0. -/
def kindAt?
    (g : Grammar)
    (id : Nat) : Option KindEntry :=
  g.kinds[id]?

/- Whether the kind with a number is named. -/
def isNamedAt
    (g : Grammar)
    (id : Nat) : Bool :=
  ((g.kindAt? id).map KindEntry.isNamed).getD false

/- The number of the first entry of a kind. -/
def kindId?
    (g : Grammar)
    (entry : KindEntry) : Option Nat :=
  (g.kinds.findIdx? (· == entry)).bind usableId?

/- The field with a number; fields are counted from 1. -/
def fieldAt?
    (g : Grammar)
    (id : Nat) : Option String :=
  match id with
  | 0 => none
  | n + 1 => g.fields[n]?

/- The number of the first entry of a field. -/
def fieldId?
    (g : Grammar)
    (field : String) : Option Nat :=
  (g.fields.findIdx? (· == field)).bind
    (fun index => usableId? (index + 1))

end Grammar

------------------------------------------------------------
-- Errors
------------------------------------------------------------

/- Why a grammar cannot be loaded or used. -/
inductive GrammarError where
  | emptyArtifact
  | malformedArtifact
  | unsupportedVersion (version : Nat)
  | wrongName (found : String)
  | missingKind (kind : String)
  | missingField (field : String)
deriving DecidableEq, Repr

namespace GrammarError

/- The wording of an error about a missing entry. -/
def missingMessage
    (entry : String) : String :=
  "Grammar is missing node kind " ++ Text.quoted entry

/- The wording of an error. -/
def message : GrammarError → String
  | emptyArtifact =>
      "Corrupt grammar artifact: artifact is empty"
  | malformedArtifact =>
      "Corrupt grammar artifact: artifact is malformed"
  | unsupportedVersion version =>
      "Incompatible language version " ++ toString version ++
        ", expected a version between " ++
        toString Grammar.oldestVersion ++ " and " ++
        toString Grammar.latestVersion
  | wrongName found =>
      "Grammar mismatch: expected " ++ Grammar.requiredName ++
        ", found " ++ found
  | missingKind kind => missingMessage kind
  | missingField field => missingMessage ("field " ++ field)

end GrammarError

namespace Grammar

------------------------------------------------------------
-- Usable Grammars
------------------------------------------------------------

/- The first kind that a grammar has no number for. -/
def missingKind?
    (g : Grammar) : Option KindEntry :=
  requiredKinds.find? (fun k => (g.kindId? k).isNone)

/- The first field that a grammar has no number for. -/
def missingField?
    (g : Grammar) : Option String :=
  requiredFields.find? (fun f => (g.fieldId? f).isNone)

/-
  The first reason why a grammar cannot be used: its
  version, its name, a missing kind, or a missing field.
-/
def problem?
    (g : Grammar) : Option GrammarError :=
  if ¬ IsSupported g.version then
    some (.unsupportedVersion g.version)
  else if g.name ≠ requiredName then
    some (.wrongName g.name)
  else
    match g.missingKind? with
    | some entry => some (.missingKind entry.kind)
    | none => g.missingField?.map .missingField

/- Check that a grammar can be used. -/
def validate
    (g : Grammar) : Except GrammarError Unit :=
  match g.problem? with
  | some e => .error e
  | none => .ok ()

/- A summary of a grammar on one line. -/
def summary
    (g : Grammar) : String :=
  "Language \x7b name: " ++ Text.quoted g.name ++
    ", version: " ++ toString g.version ++
    ", node_kinds: " ++ toString g.kinds.length ++
    ", fields: " ++ toString g.fields.length ++ " \x7d"

end Grammar

end FeSyntax
