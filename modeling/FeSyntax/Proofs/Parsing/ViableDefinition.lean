import FeSyntax.Proofs.Parsing.SentenceDefinition
import FeSyntax.Proofs.Parsing.ViableExpression

/-
  This file proves that the parsers of definitions and of
  whole files are viable: what they have passed when they
  ask for something else is the start of a definition, or of
  definitions in a row.

  Key theorems include:
    * `Parser.function_viable`
    * `Parser.definition_viable`
    * `Parser.definitions_viable`
-/

namespace FeSyntax

open scoped Computability

open Spelling

------------------------------------------------------------
-- Sentences That Can Be Written
------------------------------------------------------------

instance : Fillable Identifier.paramSentences :=
  .of_le (l := 1) (le_self_add.trans Identifier.params_le)

instance : Fillable Param.sentences :=
  .of_le Param.parts_le

instance : Fillable Field.sentences :=
  .of_le Field.parts_le

instance : Fillable Function.unmarked :=
  inferInstanceAs (Fillable (Keyword.fnKw.written * _))

instance : Fillable Function.sentences :=
  .of_le Function.parts_le

instance : Fillable Function.listSentences :=
  .of_le Function.list_le

instance : Fillable Struct.bodySentences :=
  .of_le Struct.semicolon_le

instance : Fillable Definition.unmarked :=
  inferInstanceAs
    (Fillable (Function.unmarked + _ + _ + _ + _))

instance : Fillable Definition.sentences :=
  .of_le Definition.parts_le

namespace Parser

variable {first : Option TokenKind → Prop}

------------------------------------------------------------
-- Functions
------------------------------------------------------------

/- A parameter passes a name, a colon and a type. -/
theorem param_viable
    (n : Nat) :
    (param n).Viable Anywhere Param.sentences := by
  refine Viable.le ?_ Param.parts_le
  exact Viable.identifier.bind fun _ =>
    (Viable.punct .colon).bind fun _ =>
      (ty_viable n).final fun _ => .pure _

/-
  A function passes its words but for a `pub`, which was
  passed before.
-/
theorem function_viable
    (n : Nat)
    (visibility : Option Span) :
    (function n visibility).Viable first
      Function.unmarked := by
  have hParams :
      (commaList .rightParen (param n)).Viable Anywhere
        (anyOf .rightParen Param.sentences) :=
    .commaList (param_viable n) (param_passes n) _
  have hReturn :
      (do let _ ← punct .arrow; ty n).Viable Anywhere
        (Punct.arrow.written * Ty.sentences) :=
    (Viable.punct .arrow).bind fun _ => ty_viable n
  exact (Viable.keyword .fnKw).bind fun _ =>
    Viable.identifier.bind fun _ =>
      Viable.typeParams.bind fun _ =>
        (Viable.punct .leftParen).bind fun _ =>
          hParams.bind fun _ =>
            hReturn.whenAt.bind fun _ =>
              (block_viable n).final fun _ => .pure _

/- A nested function does so too, with one level less. -/
theorem nestedFunction_viable
    (n : Nat)
    (visibility : Option Span) :
    (nestedFunction n visibility).Viable first
      Function.unmarked := by
  cases n with
  | zero => exact .ofTooDeep
  | succ n => exact function_viable n visibility

/- A member function passes its `pub` as well. -/
theorem memberFunction_viable
    (n : Nat) :
    (memberFunction n).Viable Anywhere
      Function.sentences := by
  have hFunction
      (visibility : Option Span)
      {first : Option TokenKind → Prop} :
      (do
        if ← isAt (.keyword .fnKw) then
          nestedFunction n visibility
        else
          fail (.expected (.keyword .fnKw))).Viable first
        Function.unmarked := by
    refine .isAt_bind fun isThere => ?_
    cases isThere with
    | false => exact .ofExpected _
    | true => exact nestedFunction_viable n visibility
  refine Viable.le ?_ Function.parts_le
  exact .keyword?_bind (fun _ => hFunction _) (hFunction _)

/-
  The functions of a list pass their words between braces.
-/
theorem functionList_viable
    (n : Nat) :
    (functionList n).Viable first
      Function.listSentences := by
  refine Viable.le ?_ Function.list_le
  exact (Viable.punct .leftBrace).bind fun _ =>
    .itemsUntil (memberFunction_viable n)
      (memberFunction_passes n) _

------------------------------------------------------------
-- Structs
------------------------------------------------------------

/- A field passes its `pub`, a name and a type. -/
theorem field_viable
    (n : Nat) :
    (field n).Viable Anywhere Field.sentences := by
  have hName :
      identifier.Viable (· ≠ some (.keyword .pubKw))
        (Identifier.sentences ⊓
          headed (· ≠ .keyword .pubKw)) :=
    Viable.identifier.headed
      (plainName_mem_inf Identifier.plainName_mem nofun)
      fun _ hNot hSame => hNot (congrArg some hSame)
  have hRest
      (f : Ty → Field) :
      (do
        let _ ← punct .colon
        let ty ← ty n
        pure (f ty)).Viable Anywhere
          (Punct.colon.written * Ty.sentences) :=
    (Viable.punct .colon).bind fun _ =>
      (ty_viable n).final fun _ => .pure _
  refine Viable.le ?_ Field.parts_le
  exact .keyword?_bind
    (fun _ => Viable.identifier.bind fun _ => hRest _)
    (hName.bind fun _ => hRest _)

/-
  The body of a struct passes a semicolon, or fields between
  braces.
-/
theorem structBody_viable
    (n : Nat) :
    (structBody n).Viable Anywhere
      Struct.bodySentences := by
  have hFields :
      (commaList .rightBrace (field n)).Viable Anywhere
        (anyOf .rightBrace Field.sentences) :=
    .commaList (field_viable n) (field_passes n) _
  refine .peek_bind fun next _ => ?_
  cases next with
  | none => exact .ofExpected _
  | some kind =>
      cases kind with
      | punct mark =>
          cases mark with
          | semicolon =>
              refine Viable.le ?_ Struct.semicolon_le
              exact (Viable.punct .semicolon).final fun _ =>
                .pure _
          | leftBrace =>
              refine Viable.le ?_ Struct.fields_le
              exact (Viable.punct .leftBrace).bind fun _ =>
                hFields.final fun _ => .pure _
          | _ => exact .ofExpected _
      | _ => exact .ofExpected _

/- A struct passes its words but for a `pub`. -/
theorem struct_viable
    (n : Nat)
    (visibility : Option Span) :
    (struct n visibility).Viable first Struct.unmarked :=
  (Viable.keyword .structKw).bind fun _ =>
    Viable.identifier.bind fun _ =>
      Viable.typeParams.bind fun _ =>
        (structBody_viable n).final fun _ => .pure _

------------------------------------------------------------
-- Other Definitions
------------------------------------------------------------

theorem constant_viable
    (n : Nat)
    (visibility : Option Span) :
    (constant n visibility).Viable first
      Constant.unmarked :=
  (Viable.keyword .constKw).bind fun _ =>
    Viable.identifier.bind fun _ =>
      (Viable.punct .colon).bind fun _ =>
        (ty_viable n).bind fun _ =>
          (Viable.punct .equals).bind fun _ =>
            (expression_viable n).bind fun _ =>
              (Viable.punct .semicolon).final fun _ =>
                .pure _

theorem typeAlias_viable
    (n : Nat)
    (visibility : Option Span) :
    (typeAlias n visibility).Viable first
      TypeAlias.unmarked :=
  (Viable.keyword .typeKw).bind fun _ =>
    Viable.identifier.bind fun _ =>
      Viable.typeParams.bind fun _ =>
        (Viable.punct .equals).bind fun _ =>
          (ty_viable n).bind fun _ =>
            (Viable.punct .semicolon).final fun _ => .pure _

theorem trait_viable
    (n : Nat)
    (visibility : Option Span) :
    (trait n visibility).Viable first Trait.unmarked :=
  (Viable.keyword .traitKw).bind fun _ =>
    Viable.identifier.bind fun _ =>
      Viable.typeParams.bind fun _ =>
        (functionList_viable n).final fun _ => .pure _

/-
  An implementation passes a type, a trait if there is one,
  and functions.
-/
theorem impl_viable
    (n : Nat) :
    (impl n).Viable first Impl.parts := by
  have hTrait :
      (do let _ ← keyword .forKw; ty n).Viable Anywhere
        (Keyword.forKw.written * Ty.sentences) :=
    (Viable.keyword .forKw).bind fun _ => ty_viable n
  exact (Viable.keyword .implKw).bind fun _ =>
    (ty_viable n).bind fun _ =>
      hTrait.whenAt.bind fun _ =>
        (functionList_viable n).final fun _ => .pure _

------------------------------------------------------------
-- Definitions
------------------------------------------------------------

section Definitions

variable {inner : Parser Definition}
variable {n : Nat}
variable
  (hInner : inner.Viable Anywhere Definition.sentences)
variable (hPasses : inner.Passes 1 n)

include hInner hPasses

/-
  A module passes the words of its definitions between
  braces.
-/
theorem moduleOf_viable :
    (moduleOf inner).Viable first
      (Keyword.modKw.written *
        (Identifier.sentences *
          (Punct.leftBrace.written *
            (Definition.sentences∗ *
              Punct.rightBrace.written)))) := by
  have hItem :
      (moduleItem inner).Viable Anywhere
        Definition.sentences := by
    refine .peek_bind fun next _ => ?_
    cases next with
    | none => exact .ofExpected _
    | some kind => exact hInner.here
  have hItems :
      (itemsUntil .rightBrace (moduleItem inner)).Viable
        Anywhere
        (Definition.sentences∗ *
          Punct.rightBrace.written) :=
    .itemsUntil hItem (moduleItem_passes hPasses) _
  exact (Viable.keyword .modKw).bind fun _ =>
    Viable.identifier.bind fun _ =>
      (Viable.punct .leftBrace).bind fun _ =>
        hItems.final fun _ => .pure _

omit hInner hPasses in
/- The definitions that can be public, whether they are. -/
theorem unmarked_viable
    (n : Nat)
    (first : Option TokenKind → Prop)
    (visibility : Option Span) :
    (Definition.function <$>
        function n visibility).Viable first
      Definition.unmarked ∧
    (Definition.struct <$>
        struct n visibility).Viable first
      Definition.unmarked ∧
    (Definition.constant <$>
        constant n visibility).Viable first
      Definition.unmarked ∧
    (Definition.typeAlias <$>
        typeAlias n visibility).Viable first
      Definition.unmarked ∧
    (Definition.trait <$>
        trait n visibility).Viable first
      Definition.unmarked := by
  have hKinds :=
    le_refl Definition.unmarked
  nth_rewrite 1 [Definition.unmarked] at hKinds
  simp only [add_le_iff] at hKinds
  rcases hKinds with
    ⟨⟨⟨⟨hFunction, hStruct⟩, hConstant⟩, hTypeAlias⟩,
      hTrait⟩
  exact
    ⟨((function_viable n _).map _).le hFunction,
      ((struct_viable n _).map _).le hStruct,
      ((constant_viable n _).map _).le hConstant,
      ((typeAlias_viable n _).map _).le hTypeAlias,
      ((trait_viable n _).map _).le hTrait⟩

/-
  Each keyword leads to a definition, and `pub` only to one
  that can be public.
-/
theorem definitionOf_viable :
    (definitionOf n inner).Viable Anywhere
      Definition.sentences := by
  refine Viable.le ?_ Definition.parts_le
  refine .keyword?_bind (fun span => ?_) ?_
  · refine .peek_bind fun next _ => ?_
    rcases unmarked_viable n (· = next) (some span) with
      ⟨hFunction, hStruct, hConstant, hTypeAlias, hTrait⟩
    cases next with
    | none => exact .ofExpected _
    | some kind =>
        cases kind with
        | keyword k =>
            cases k with
            | fnKw => exact hFunction
            | structKw => exact hStruct
            | constKw => exact hConstant
            | typeKw => exact hTypeAlias
            | traitKw => exact hTrait
            | _ => exact .ofExpected _
        | _ => exact .ofExpected _
  · refine .peek_bind fun next _ => ?_
    rcases unmarked_viable n (· = next) none with
      ⟨hFunction, hStruct, hConstant, hTypeAlias, hTrait⟩
    cases next with
    | none => exact .ofExpected _
    | some kind =>
        cases kind with
        | keyword k =>
            cases k with
            | modKw =>
                exact
                  ((moduleOf_viable hInner hPasses).map _).le
                    (le_add_self.trans le_add_self)
            | implKw =>
                exact ((impl_viable n).map _).le
                  (le_self_add.trans le_add_self)
            | fnKw => exact hFunction.le le_self_add
            | structKw => exact hStruct.le le_self_add
            | constKw => exact hConstant.le le_self_add
            | typeKw => exact hTypeAlias.le le_self_add
            | traitKw => exact hTrait.le le_self_add
            | _ => exact .ofExpected _
        | _ => exact .ofExpected _

end Definitions

theorem definition_viable
    (n : Nat) :
    (definition n).Viable Anywhere
      Definition.sentences := by
  induction n with
  | zero => exact .ofTooDeep
  | succ n ih =>
      exact definitionOf_viable ih (definition_passes n)

/- Between definitions there is another one, or the end. -/
theorem definitionStep_viable
    (n : Nat) :
    (definitionStep n).Viable Anywhere
      (Definition.sentences + 1) := by
  refine .peek_bind fun next _ => ?_
  cases next with
  | none => exact (Viable.pure _).le le_add_self
  | some kind =>
      exact ((definition_viable n).here.map _).le le_self_add

/-
  The definitions of a text pass their words one behind the
  other.
-/
theorem definitions_viable
    (n : Nat) :
    (definitions n).Viable Anywhere
      Definition.sentences∗ := by
  have hParts :
      (collect .definition (definitionStep n)).Viable
        Anywhere (Definition.sentences∗ * 1) := by
    refine .collect (.definitionStep n) ?_ ?_
      (definitionStep_viable n)
    · intro ts rest d hLexed hDone
      rcases definitionStep_eq_done.mp hDone with
        ⟨-, d', hRun, -⟩ | ⟨-, -, hPart⟩
      · exact (definition_viable n).done hLexed trivial hRun
      · cases hPart
    · intro ts rest u hLexed hDone
      rcases definitionStep_eq_done.mp hDone with
        ⟨-, d, -, hPart⟩ | ⟨rfl, rfl, -⟩
      · cases hPart
      · exact .refl []
  exact (hParts.le (mul_one _).le).final fun _ => .pure _

end Parser

end FeSyntax
