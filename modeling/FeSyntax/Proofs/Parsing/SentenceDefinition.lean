import FeSyntax.Proofs.Parsing.SentenceExpression

/-
  This file defines the sentences of definitions, and proves
  the productions that they are made by.  A file is written
  as a row of definitions.

  Key definitions include:
    * `Function.sentences`
    * `Function.unmarked`
    * `Definition.sentences`
    * `Definition.unmarked`

  Key theorems include:
    * `Function.parts_le`
    * `Definition.parts_le`
    * `Definition.kstar_sentences_le`
-/

namespace FeSyntax

open scoped Computability

open Spelling

------------------------------------------------------------
-- Parameters And Fields
------------------------------------------------------------

/- Every parameter in which the keyword wins. -/
def Param.sentences : Language TokenKind :=
  Spelling.sentences (fun p : Param => p.ty.KeywordWins)
    spellings

/- Every field in which the keyword wins. -/
def Field.sentences : Language TokenKind :=
  Spelling.sentences KeywordWins spellings

/- A name, a colon and a type are a parameter. -/
theorem Param.parts_le :
    Identifier.sentences *
        (Punct.colon.written * Ty.sentences) ≤
      Param.sentences := by
  simp only [Identifier.sentences, Ty.sentences,
    sentences_mul, mul_sentences, sentences_le_iff]
  intro ty hTy name _
  refine le_sentences (a := ⟨name, ty, .nowhere⟩) hTy ?_
  rw [spellings, mul_assoc]

/-
  With `pub` in front, or without if the name is not that
  word, they are a field.
-/
theorem Field.parts_le :
    Keyword.pubKw.written *
          (Identifier.sentences *
            (Punct.colon.written * Ty.sentences)) +
        (Identifier.sentences ⊓
            headed (· ≠ .keyword .pubKw)) *
          (Punct.colon.written * Ty.sentences) ≤
      Field.sentences := by
  refine add_le_iff.mpr ⟨?_, ?_⟩
  · simp only [Identifier.sentences, Ty.sentences,
      sentences_mul, mul_sentences, sentences_le_iff]
    intro ty hTy name _
    refine le_sentences (a := ⟨true, name, ty, .nowhere⟩)
      ⟨fun hPub => Bool.noConfusion hPub, hTy⟩ ?_
    simp only [spellings, mul_assoc]
    rfl
  · refine (mul_le_mul_left
      (Identifier.headed_le .pubKw) _).trans ?_
    simp only [Ty.sentences, sentences_mul, mul_sentences,
      sentences_le_iff]
    intro ty hTy name hName
    refine le_sentences (a := ⟨false, name, ty, .nowhere⟩)
      ⟨fun _ => hName, hTy⟩ ?_
    simp only [spellings, visibility, present,
      if_neg Bool.false_ne_true, one_mul, mul_assoc,
      le_refl]

/- What can stand with and without `pub`, in both forms. -/
theorem Spelling.markable_le
    {l m : Language TokenKind}
    (hMarked : ∀ isPub, visibility isPub * l ≤ m) :
    Keyword.pubKw.written * l + l ≤ m := by
  have hHidden := hMarked false
  rw [visibility, present, if_neg Bool.false_ne_true,
    one_mul] at hHidden
  exact add_le_iff.mpr ⟨hMarked true, hHidden⟩

------------------------------------------------------------
-- Functions
------------------------------------------------------------

namespace Function

/- Every function in which the keyword wins. -/
def sentences : Language TokenKind :=
  Spelling.sentences KeywordWins spellings

/- A function without its visibility. -/
def unmarked : Language TokenKind :=
  Keyword.fnKw.written *
    (Identifier.sentences *
      (Identifier.paramSentences *
        (Punct.leftParen.written *
          (anyOf .rightParen Param.sentences *
            ((1 + Punct.arrow.written * Ty.sentences) *
              Block.sentences)))))

/- The functions of a trait or an impl, in braces. -/
def listSentences : Language TokenKind :=
  Spelling.sentences
    (fun fs : List Function => ∀ f ∈ fs, f.KeywordWins)
    listSpellings

/-
  With or without `pub`, the rest of a function makes a
  function.
-/
theorem unmarked_le
    (isPub : Bool) :
    visibility isPub * unmarked ≤ sentences := by
  have hParts :
      unmarked ≤
        Keyword.fnKw.written *
          (Identifier.sentences *
            (Identifier.paramSentences *
              (Punct.leftParen.written *
                (Spelling.sentences
                  (fun ps : List Param =>
                    ∀ p ∈ ps, p.ty.KeywordWins)
                  (fun ps =>
                    separated .comma
                        (ps.map Param.spellings) *
                      Punct.rightParen.written) *
                  (Spelling.sentences
                    (fun o : Option Ty =>
                      ∀ t ∈ o, t.KeywordWins)
                    (fun o => behind (.punct .arrow)
                      (o.map Ty.spellings)) *
                    Block.sentences))))) := by
    rw [unmarked]
    gcongr
    · exact anyOf_le
    · exact behind_le
  refine (mul_le_mul_right hParts _).trans ?_
  simp only [Identifier.sentences, Block.sentences,
    Identifier.paramSentences, sentences_mul, mul_sentences,
    sentences_le_iff]
  intro body hBody returnType hReturn params hParams
    typeParams _ name _
  refine le_sentences
    (a := ⟨isPub, name, typeParams, params, returnType, body,
      .nowhere⟩) ⟨hParams, hReturn, hBody⟩ ?_
  simp only [spellings, mul_assoc, le_refl]

/- A function may start with `pub`. -/
theorem parts_le :
    Keyword.pubKw.written * unmarked + unmarked ≤
      sentences :=
  markable_le unmarked_le

/- Functions between braces are a list of functions. -/
theorem list_le :
    Punct.leftBrace.written *
        (sentences∗ * Punct.rightBrace.written) ≤
      listSentences := by
  have hFunctions :
      sentences∗ ≤
        Spelling.sentences
          (fun fs : List Function =>
            ∀ f ∈ fs, f.KeywordWins)
          fun fs => (fs.map spellings).prod :=
    kstar_sentences_le
  refine (mul_le_mul_right
    (mul_le_mul_left hFunctions _) _).trans ?_
  simp only [sentences_mul, mul_sentences, sentences_le_iff]
  intro fs hKeyword
  refine le_sentences hKeyword ?_
  rw [listSpellings, mul_assoc]

end Function

------------------------------------------------------------
-- Structs
------------------------------------------------------------

namespace Struct

/- What can follow the name of a struct. -/
def bodySentences : Language TokenKind :=
  Spelling.sentences
    (fun o : Option (List Field) =>
      ∀ fields ∈ o, ∀ f ∈ fields, f.KeywordWins)
    bodySpellings

/- A struct without its visibility. -/
def unmarked : Language TokenKind :=
  Keyword.structKw.written *
    (Identifier.sentences *
      (Identifier.paramSentences * bodySentences))

/- A semicolon is the body of a unit struct. -/
theorem semicolon_le :
    Punct.semicolon.written ≤ bodySentences :=
  le_sentences (a := none) nofun le_rfl

/- Fields between braces are the body of a struct. -/
theorem fields_le :
    Punct.leftBrace.written *
        anyOf .rightBrace Field.sentences ≤
      bodySentences := by
  refine (mul_le_mul_right anyOf_le _).trans ?_
  rw [mul_sentences, sentences_le_iff]
  intro fields hKeyword
  refine le_sentences (a := some fields) ?_ ?_
  · rintro fields' ⟨⟩
    exact hKeyword
  · rw [bodySpellings, mul_assoc]

end Struct

------------------------------------------------------------
-- Constants And Type Aliases
------------------------------------------------------------

/- A constant without its visibility. -/
def Constant.unmarked : Language TokenKind :=
  Keyword.constKw.written *
    (Identifier.sentences *
      (Punct.colon.written *
        (Ty.sentences *
          (Punct.equals.written *
            (Expression.sentences *
              Punct.semicolon.written)))))

/- A type alias without its visibility. -/
def TypeAlias.unmarked : Language TokenKind :=
  Keyword.typeKw.written *
    (Identifier.sentences *
      (Identifier.paramSentences *
        (Punct.equals.written *
          (Ty.sentences * Punct.semicolon.written))))

------------------------------------------------------------
-- Traits And Impls
------------------------------------------------------------

/- A trait without its visibility. -/
def Trait.unmarked : Language TokenKind :=
  Keyword.traitKw.written *
    (Identifier.sentences *
      (Identifier.paramSentences * Function.listSentences))

/- The parts of an impl. -/
def Impl.parts : Language TokenKind :=
  Keyword.implKw.written *
    (Ty.sentences *
      ((1 + Keyword.forKw.written * Ty.sentences) *
        Function.listSentences))

------------------------------------------------------------
-- Definitions
------------------------------------------------------------

namespace Definition

/- Every definition in which the keyword wins. -/
def sentences : Language TokenKind :=
  Spelling.sentences KeywordWins spellings

/- A definition that can be public, without its `pub`. -/
def unmarked : Language TokenKind :=
  Function.unmarked + Struct.unmarked + Constant.unmarked +
    TypeAlias.unmarked + Trait.unmarked

/- A definition that cannot be public. -/
def unmarkable : Language TokenKind :=
  Impl.parts +
    Keyword.modKw.written *
      (Identifier.sentences *
        (Punct.leftBrace.written *
          (sentences∗ * Punct.rightBrace.written)))

/- A function is a definition, public or not. -/
theorem function_le
    (isPub : Bool) :
    visibility isPub * Function.unmarked ≤ sentences := by
  refine (Function.unmarked_le isPub).trans ?_
  rw [Function.sentences, sentences_le_iff]
  intro f hFunction
  refine le_sentences (a := .function f)
    (.function hFunction) ?_
  rw [spellings]

theorem struct_le
    (isPub : Bool) :
    visibility isPub * Struct.unmarked ≤ sentences := by
  simp only [Struct.unmarked, Struct.bodySentences,
    Identifier.sentences, Identifier.paramSentences,
    sentences_mul, mul_sentences, sentences_le_iff]
  intro fields hFields typeParams _ name _
  refine le_sentences
    (a := .struct
      ⟨isPub, name, typeParams, fields, .nowhere⟩)
    (.struct hFields) ?_
  simp only [spellings, Struct.spellings, mul_assoc,
    le_refl]

theorem constant_le
    (isPub : Bool) :
    visibility isPub * Constant.unmarked ≤ sentences := by
  simp only [Constant.unmarked, Identifier.sentences,
    Ty.sentences, Expression.sentences, sentences_mul,
    mul_sentences, sentences_le_iff]
  intro value hValue ty hTy name _
  refine le_sentences
    (a := .constant ⟨isPub, name, ty, value, .nowhere⟩)
    (.constant ⟨hTy, hValue⟩) ?_
  simp only [spellings, Constant.spellings, mul_assoc,
    le_refl]

theorem typeAlias_le
    (isPub : Bool) :
    visibility isPub * TypeAlias.unmarked ≤ sentences := by
  simp only [TypeAlias.unmarked, Identifier.sentences,
    Identifier.paramSentences, Ty.sentences, sentences_mul,
    mul_sentences, sentences_le_iff]
  intro ty hTy typeParams _ name _
  refine le_sentences
    (a := .typeAlias ⟨isPub, name, typeParams, ty, .nowhere⟩)
    (.typeAlias hTy) ?_
  simp only [spellings, TypeAlias.spellings, mul_assoc,
    le_refl]

theorem trait_le
    (isPub : Bool) :
    visibility isPub * Trait.unmarked ≤ sentences := by
  simp only [Trait.unmarked, Function.listSentences,
    Identifier.sentences, Identifier.paramSentences,
    sentences_mul, mul_sentences, sentences_le_iff]
  intro fs hFunctions typeParams _ name _
  refine le_sentences
    (a := .trait ⟨isPub, name, typeParams, fs, .nowhere⟩)
    (.trait hFunctions) ?_
  simp only [spellings, Trait.spellings, mul_assoc, le_refl]

/- All definitions but two kinds can be public or not. -/
theorem unmarked_le
    (isPub : Bool) :
    visibility isPub * unmarked ≤ sentences := by
  simp only [unmarked, mul_add, add_le_iff]
  exact
    ⟨⟨⟨⟨function_le isPub, struct_le isPub⟩,
      constant_le isPub⟩, typeAlias_le isPub⟩,
      trait_le isPub⟩

/- An implementation is a definition without `pub`. -/
theorem impl_le :
    Impl.parts ≤ sentences := by
  refine (mul_le_mul_right (mul_le_mul_right
    (mul_le_mul_left behind_le _) _) _).trans ?_
  simp only [Ty.sentences, Function.listSentences,
    sentences_mul, mul_sentences, sentences_le_iff]
  intro fs hFunctions traitTy hTrait ty hTy
  refine le_sentences
    (a := .impl ⟨ty, traitTy, fs, .nowhere⟩)
    (.impl ⟨hTy, hTrait, hFunctions⟩) ?_
  simp only [spellings, Impl.spellings, mul_assoc, le_refl]

/- Definitions in a row are the spellings of a list. -/
theorem kstar_sentences_le :
    sentences∗ ≤
      Spelling.sentences
        (fun ds : List Definition => ∀ d ∈ ds, d.KeywordWins)
        fun ds => (ds.map spellings).prod :=
  Spelling.kstar_sentences_le

theorem unmarkable_le :
    unmarkable ≤ sentences := by
  refine add_le_iff.mpr ⟨impl_le, ?_⟩
  refine (mul_le_mul_right (mul_le_mul_right
    (mul_le_mul_right
      (mul_le_mul_left kstar_sentences_le _) _) _) _).trans
    ?_
  simp only [Identifier.sentences, sentences_mul,
    mul_sentences, sentences_le_iff]
  intro ds hDefinitions name _
  refine le_sentences (a := .module ⟨name, ds, .nowhere⟩)
    (.module (.mk hDefinitions)) ?_
  simp only [spellings, Module.spellings,
    Module.definitionSpellings_eq, mul_assoc, le_refl]

/- A definition may start with `pub`, unless it cannot. -/
theorem parts_le :
    Keyword.pubKw.written * unmarked +
        (unmarked + unmarkable) ≤
      sentences := by
  rw [← add_assoc]
  exact add_le_iff.mpr
    ⟨markable_le unmarked_le, unmarkable_le⟩

end Definition

end FeSyntax
