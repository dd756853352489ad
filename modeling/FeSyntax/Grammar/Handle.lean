import FeSyntax.Grammar.Artifact

/-
  This file defines handles of grammars.  A handle tells
  apart grammars that are equal but were loaded separately.

  Key definitions include:
    * `GrammarOrigin`
    * `GrammarHandle`
    * `GrammarHandle.builtin`
    * `GrammarHandle.load`
    * `GrammarHandle.IsSame`
    * `ForeignHandle`
    * `ForeignHandle.version`
    * `ForeignHandle.name?`
-/

namespace FeSyntax

------------------------------------------------------------
-- Handles
------------------------------------------------------------

/-
  Where the data of a grammar are from: they are built in,
  or they were loaded with a number of their own.
-/
inductive GrammarOrigin where
  | builtin
  | loaded (serial : Nat)
deriving DecidableEq, Repr

/- A grammar together with the origin of its data. -/
structure GrammarHandle where
  origin : GrammarOrigin
  grammar : Grammar

namespace GrammarHandle

/- The handle of the built-in grammar. -/
def builtin : GrammarHandle :=
  ⟨.builtin, .builtin⟩

/- The handle of an artifact that is loaded as number `n`. -/
def load
    (n : Nat)
    (text : String) : Except GrammarError GrammarHandle := do
  let grammar ← Grammar.ofArtifact text
  pure ⟨.loaded n, grammar⟩

/- Two handles are the same if they share their data. -/
def IsSame
    (a b : GrammarHandle) : Prop :=
  a.origin = b.origin

instance
    (a b : GrammarHandle) :
    Decidable (a.IsSame b) := by
  unfold IsSame
  infer_instance

end GrammarHandle

------------------------------------------------------------
-- Handles For Foreign Callers
------------------------------------------------------------

/- What a foreign caller holds: a handle, or none at all. -/
abbrev ForeignHandle : Type :=
  Option GrammarHandle

namespace ForeignHandle

/-
  The version that a foreign caller is told.  It is 0
  without a handle, which no usable grammar has.
-/
def version
    (handle : ForeignHandle) : Nat :=
  match handle with
  | some h => h.grammar.version
  | none => 0

/-
  The name that a foreign caller is told.  Just one name is
  kept for foreign callers, so a grammar that is named
  differently has none.
-/
def name?
    (handle : ForeignHandle) : Option String :=
  match handle with
  | some h =>
      if h.grammar.name = Grammar.requiredName then
        some Grammar.requiredName
      else
        none
  | none => none

end ForeignHandle

end FeSyntax
