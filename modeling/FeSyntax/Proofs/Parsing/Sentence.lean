import FeSyntax.Proofs.Parsing.FirstToken
import Mathlib.Order.ConditionallyCompleteLattice.Basic
import Mathlib.Order.CompletePartialOrder

/-
  This file defines the sentences of a sort of tree: all
  spellings of the trees in which the keyword wins.  It
  proves the productions of types and patterns: how their
  sentences are put together from sentences.

  Key definitions include:
    * `Spelling.sentences`
    * `Spelling.headed`
    * `Ty.sentences`
    * `Pattern.sentences`

  Key theorems include:
    * `Spelling.kstar_sentences_le`
    * `Spelling.anyOf_le`
    * `Ty.tuple_le`
    * `Pattern.tupleStruct_le`
-/

namespace FeSyntax

open scoped Computability

namespace Spelling

variable {α : Type}
variable {good : α → Prop}
variable {spell : α → Language TokenKind}
variable {l m : Language TokenKind}

------------------------------------------------------------
-- Sentences
------------------------------------------------------------

/- All spellings of the values with a property. -/
def sentences
    (good : α → Prop)
    (spell : α → Language TokenKind) : Language TokenKind :=
  ⨆ (a : α) (_ : good a), spell a

/- A sentence is a spelling of some good value. -/
theorem mem_sentences_iff
    {w : List TokenKind} :
    w ∈ sentences good spell ↔
      ∃ a, good a ∧ w ∈ spell a := by
  simp only [sentences, Language.mem_iSup, exists_prop]

/-
  To bound all sentences is to bound the spellings of each
  good value.
-/
theorem sentences_le_iff :
    sentences good spell ≤ l ↔
      ∀ a, good a → spell a ≤ l := by
  simp only [sentences, iSup_le_iff]

/- Words that spell one good value are sentences. -/
theorem le_sentences
    {a : α}
    (hGood : good a)
    (hSpell : l ≤ spell a) :
    l ≤ sentences good spell :=
  fun _ hMem =>
    mem_sentences_iff.mpr ⟨a, hGood, hSpell hMem⟩

/-
  A word in front of sentences is in front of each spelling.
-/
theorem mul_sentences :
    l * sentences good spell =
      sentences good fun a => l * spell a := by
  simp only [sentences, Language.mul_iSup]

/- A word behind sentences is behind each spelling. -/
theorem sentences_mul :
    sentences good spell * l =
      sentences good fun a => spell a * l := by
  simp only [sentences, Language.iSup_mul]

------------------------------------------------------------
-- Lists
------------------------------------------------------------

/- Sentences in a row are the spellings of a list. -/
theorem kstar_sentences_le :
    (sentences good spell)∗ ≤
      sentences (fun as : List α => ∀ a ∈ as, good a)
        fun as => (as.map spell).prod := by
  have hNone :
      1 ≤ sentences (fun as : List α => ∀ a ∈ as, good a)
        fun as => (as.map spell).prod :=
    le_sentences (a := []) nofun le_rfl
  rw [← mul_one (sentences good spell)∗]
  refine kstar_mul_le hNone ?_
  rw [sentences_mul, sentences_le_iff]
  intro a hGood
  rw [mul_sentences, sentences_le_iff]
  intro as hAll
  refine le_sentences (a := a :: as)
    (List.forall_mem_cons.mpr ⟨hGood, hAll⟩) ?_
  rw [List.map_cons, List.prod_cons]

/- One or more parts with a mark between them. -/
def someOf
    (mark : Punct)
    (part : Language TokenKind) : Language TokenKind :=
  part * (mark.written * part)∗

/- Parts with commas between them, and a closing mark. -/
def anyOf
    (close : Punct)
    (part : Language TokenKind) : Language TokenKind :=
  close.written + someOf .comma part * close.written

/-
  Sentences with marks between them spell a list that is not
  empty.
-/
theorem someOf_le
    {mark : Punct} :
    someOf mark (sentences good spell) ≤
      sentences
        (fun as : List α => as ≠ [] ∧ ∀ a ∈ as, good a)
        fun as => separated mark (as.map spell) := by
  have hMore :
      (mark.written * sentences good spell)∗ ≤
        sentences (fun as : List α => ∀ a ∈ as, good a)
          fun as =>
            (as.map fun a =>
              mark.written * spell a).prod := by
    rw [mul_sentences]
    exact kstar_sentences_le
  rw [someOf, sentences_mul, sentences_le_iff]
  intro a hGood
  refine (mul_le_mul_right hMore _).trans ?_
  rw [mul_sentences, sentences_le_iff]
  intro as hAll
  refine le_sentences (a := a :: as)
    ⟨nofun, List.forall_mem_cons.mpr ⟨hGood, hAll⟩⟩ ?_
  rw [List.map_cons, separated, List.map_map]
  rfl

/-
  Sentences with commas, up to a closing mark, spell any
  list.
-/
theorem anyOf_le
    {close : Punct} :
    anyOf close (sentences good spell) ≤
      sentences (fun as : List α => ∀ a ∈ as, good a)
        fun as =>
          separated .comma (as.map spell) *
            close.written := by
  refine add_le_iff.mpr ⟨?_, ?_⟩
  · refine le_sentences (a := []) nofun ?_
    rw [List.map_nil, separated, one_mul]
  · refine (mul_le_mul_left someOf_le _).trans ?_
    rw [sentences_mul, sentences_le_iff]
    intro as hAll
    exact le_sentences hAll.2 le_rfl

/- A part that may be left out, with its lead. -/
theorem behind_le
    {lead : TokenKind} :
    1 + lead.written * sentences good spell ≤
      sentences (fun o : Option α => ∀ a ∈ o, good a)
        fun o => behind lead (o.map spell) := by
  refine add_le_iff.mpr ⟨?_, ?_⟩
  · exact le_sentences (a := none) nofun le_rfl
  · rw [mul_sentences, sentences_le_iff]
    intro a hGood
    refine le_sentences (a := some a) ?_ le_rfl
    rintro b ⟨⟩
    exact hGood

------------------------------------------------------------
-- First Kinds
------------------------------------------------------------

/- Words whose first kind, if any, has a property. -/
def headed
    (first : TokenKind → Prop) : Language TokenKind :=
  {w : List TokenKind |
    ∀ kind, w.head? = some kind → first kind}

/- A word is read from tokens that start with its head. -/
theorem exists_reads
    {w : List TokenKind}
    (hMem : w ∈ l) :
    ∃ ts, Reads ts l [] ∧ nextKind ts = w.head? := by
  let ts : List Token :=
    w.map fun kind => ⟨kind, "", ⟨0, 0, 0, 0⟩⟩
  have hKinds : ts.map Token.kind = w := by
    simp [ts, Function.comp_def]
  refine ⟨ts, reads_nil_iff.mpr (hKinds.symm ▸ hMem), ?_⟩
  rw [nextKind, ← List.head?_map, hKinds]

/- A bound on sentences with a head is one on trees. -/
theorem inf_headed_le
    {first : TokenKind → Prop}
    (hTree :
      ∀ a ts, good a → Reads ts (spell a) [] →
        (∀ kind, nextKind ts = some kind → first kind) →
        spell a ≤ l) :
    sentences good spell ⊓ headed first ≤ l := by
  rintro w ⟨hSentence, hHead⟩
  rcases mem_sentences_iff.mp hSentence with
    ⟨a, hGood, hSpelled⟩
  rcases exists_reads hSpelled with ⟨ts, hReads, hNext⟩
  refine hTree a ts hGood hReads ?_ hSpelled
  intro kind hKind
  exact hHead kind (hNext.symm.trans hKind)

end Spelling

open Spelling

/- The span of a tree that stands nowhere. -/
def Span.nowhere : Span :=
  ⟨0, 0, 0, 0⟩

------------------------------------------------------------
-- Names And Paths
------------------------------------------------------------

/- Every name. -/
def Identifier.sentences : Language TokenKind :=
  Spelling.sentences (fun _ => True) Identifier.spellings

/- Every list of type parameters. -/
def Identifier.paramSentences : Language TokenKind :=
  Spelling.sentences (fun _ => True)
    Identifier.typeParamSpellings

/- Every path with a segment. -/
def Path.sentences : Language TokenKind :=
  Spelling.sentences (fun p : Path => p.segments ≠ [])
    Path.spellings

/- Every literal. -/
def Literal.sentences : Language TokenKind :=
  Spelling.sentences (fun _ => True) Literal.spellings

/-
  A name that does not start with a keyword is not that
  keyword.
-/
theorem Identifier.headed_le
    (k : Keyword) :
    Identifier.sentences ⊓ headed (· ≠ .keyword k) ≤
      Spelling.sentences (fun i => i.name ≠ k.spelling)
        Identifier.spellings := by
  refine inf_headed_le fun i ts _ hReads hFirst => ?_
  refine le_sentences ?_ le_rfl
  intro hName
  have hNext :=
    (Identifier.nextKind_keyword_iff hReads).mpr hName
  exact hFirst _ hNext rfl

/- Type parameters are left out, or stand between angles. -/
theorem Identifier.params_le :
    1 + Punct.leftAngle.written *
        (someOf .comma Identifier.sentences *
          Punct.rightAngle.written) ≤
      Identifier.paramSentences := by
  refine add_le_iff.mpr ⟨?_, ?_⟩
  · exact le_sentences (a := []) trivial le_rfl
  · refine (mul_le_mul_right
      (mul_le_mul_left someOf_le _) _).trans ?_
    rw [sentences_mul, mul_sentences, sentences_le_iff]
    rintro (_ | ⟨i, is⟩) ⟨hSome, -⟩
    · exact absurd rfl hSome
    · refine le_sentences (a := i :: is) trivial ?_
      rw [typeParamSpellings, mul_assoc]
      nofun

/- Names with `::` between them are a path. -/
theorem Path.some_le :
    someOf .colonColon Identifier.sentences ≤
      Path.sentences := by
  refine someOf_le.trans (sentences_le_iff.mpr ?_)
  rintro is ⟨hSome, -⟩
  exact le_sentences (a := ⟨is, .nowhere⟩) hSome le_rfl

------------------------------------------------------------
-- Types
------------------------------------------------------------

namespace Ty

/- Every type expression in which the keyword wins. -/
def sentences : Language TokenKind :=
  Spelling.sentences KeywordWins spellings

/-
  A type that does not start with a keyword has no path that
  does.
-/
theorem headed_le
    (k : Keyword) :
    sentences ⊓ headed (· ≠ .keyword k) ≤
      Spelling.sentences
        (fun ty : Ty =>
          ty.KeywordWins ∧ ¬ ty.BeginsWith k.spelling)
        spellings := by
  refine inf_headed_le ?_
  intro ty ts hKeyword hReads hFirst
  refine le_sentences ⟨hKeyword, ?_⟩ le_rfl
  intro hBegins
  have hNext := (beginsWith_iff hReads hKeyword).mp hBegins
  exact hFirst _ hNext rfl

/- A path is a type if it starts with no primitive type. -/
theorem path_le :
    Path.sentences ⊓
        headed (fun kind => ∀ p, kind ≠ .primitive p) ≤
      sentences := by
  refine inf_headed_le fun p ts hSome hReads hFirst => ?_
  have hPath : p.IsTypePath :=
    (Path.isTypePath_iff hReads hSome).mpr
      fun kind hNext => hFirst _ hNext kind rfl
  refine le_sentences (a := .path p) (.path hPath) ?_
  rw [spellings]

theorem primitive_le
    (p : Primitive) :
    TokenKind.written (.primitive p) ≤ sentences :=
  le_sentences (a := .primitive p .nowhere) .primitive
    (le_of_eq (by rw [spellings]))

/-
  A reference is a type, if what it refers to does not start
  with `mut` unless that is meant.
-/
theorem reference_le :
    Punct.ampersand.written *
        (Keyword.mutKw.written * sentences +
          sentences ⊓ headed (· ≠ .keyword .mutKw)) ≤
      sentences := by
  rw [mul_add]
  refine add_le_iff.mpr ⟨?_, ?_⟩
  · rw [sentences, mul_sentences, mul_sentences,
      sentences_le_iff]
    intro ty hKeyword
    refine le_sentences (a := .reference true ty .nowhere)
      (.reference nofun hKeyword) ?_
    rw [spellings, mul_assoc]
    rfl
  · refine (mul_le_mul_right (headed_le .mutKw) _).trans ?_
    rw [mul_sentences, sentences_le_iff]
    rintro ty ⟨hKeyword, hMut⟩
    refine le_sentences (a := .reference false ty .nowhere)
      (.reference (fun _ => hMut) hKeyword) ?_
    rw [spellings, present, if_neg Bool.false_ne_true,
      mul_one]

theorem tuple_le :
    Punct.leftParen.written *
        anyOf .rightParen sentences ≤
      sentences := by
  refine (mul_le_mul_right anyOf_le _).trans ?_
  rw [mul_sentences, sentences_le_iff]
  intro tys hElements
  refine le_sentences (a := .tuple tys .nowhere)
    (.tuple hElements) ?_
  rw [spellings, spellingsAll_eq, mul_assoc]

end Ty

------------------------------------------------------------
-- Patterns
------------------------------------------------------------

namespace Pattern

/- Every pattern in which the keyword wins. -/
def sentences : Language TokenKind :=
  Spelling.sentences KeywordWins spellings

/- The kinds of words that can start a name in a pattern. -/
def StartsName
    (kind : TokenKind) : Prop :=
  (∀ b, kind ≠ .bool b) ∧ kind ≠ .keyword .underscore

theorem wildcard_le :
    Keyword.underscore.written ≤ sentences :=
  le_sentences (a := .wildcard .nowhere) .wildcard
    (le_of_eq (by rw [spellings]))

theorem literal_le :
    Literal.sentences ≤ sentences :=
  sentences_le_iff.mpr fun l _ =>
    le_sentences (a := .literal l) .literal
      (le_of_eq (by rw [spellings]))

/- Paths that can start a pattern. -/
theorem pathHeaded_le :
    Path.sentences ⊓ headed StartsName ≤
      Spelling.sentences Path.IsPatternPath
        Path.spellings := by
  refine inf_headed_le fun p ts hSome hReads hFirst => ?_
  refine le_sentences ?_ le_rfl
  refine (Path.isPatternPath_iff hReads hSome).mpr ⟨?_, ?_⟩
  · intro b hNext
    exact (hFirst _ hNext).1 b rfl
  · intro hNext
    exact (hFirst _ hNext).2 rfl

/- A name that can start a pattern is one. -/
theorem identifier_le :
    Identifier.sentences ⊓ headed StartsName ≤
      sentences := by
  refine inf_headed_le fun i ts _ hReads hFirst => ?_
  have hReads' :
      Reads ts (Path.spellings ⟨[i], i.span⟩) [] := by
    simpa [Path.spellings, separated] using hReads
  have hSome :
      (⟨[i], i.span⟩ : Path).segments ≠ [] := nofun
  have hPath : Path.IsPatternPath ⟨[i], i.span⟩ := by
    refine
      (Path.isPatternPath_iff hReads' hSome).mpr ⟨?_, ?_⟩
    · intro b hNext
      exact (hFirst _ hNext).1 b rfl
    · intro hNext
      exact (hFirst _ hNext).2 rfl
  refine le_sentences (a := .identifier i)
    (.identifier hPath) ?_
  rw [spellings]

/-
  So is such a path with patterns between parentheses behind
  it.
-/
theorem tupleStruct_le :
    (Path.sentences ⊓ headed StartsName) *
        (Punct.leftParen.written *
          anyOf .rightParen sentences) ≤
      sentences := by
  refine (mul_le_mul' pathHeaded_le
    (mul_le_mul_right anyOf_le _)).trans ?_
  rw [mul_sentences, sentences_mul, sentences_le_iff]
  intro p hPath
  rw [mul_sentences, sentences_le_iff]
  intro xs hElements
  refine le_sentences (a := .tupleStruct p xs .nowhere)
    (.tupleStruct hPath hElements) ?_
  simp only [spellings, spellingsAll_eq, mul_assoc, le_refl]

end Pattern

end FeSyntax
