import FeSyntax.Proofs.Parsing.Dispatch
import FeSyntax.Proofs.Parsing.ReplayExpression

/-
  This file proves that definitions are read in the same way
  in other places.  A definition has a mark at its end, so
  anything may follow it.

  Key theorems include:
    * `Parser.function_replays`
    * `Parser.functionList_replays`
    * `Parser.definition_replays`
    * `Parser.definitions_replays`
-/

namespace FeSyntax

open Placed

variable {r : Relocation}

------------------------------------------------------------
-- Values In Other Places
------------------------------------------------------------

instance : Placed Param :=
  ⟨fun r => Param.mapSpans r.span⟩

instance : Placed Field :=
  ⟨fun r => Field.mapSpans r.span⟩

instance : Placed Function :=
  ⟨fun r => Function.mapSpans r.span⟩

instance : Placed Struct :=
  ⟨fun r => Struct.mapSpans r.span⟩

instance : Placed Constant :=
  ⟨fun r => Constant.mapSpans r.span⟩

instance : Placed TypeAlias :=
  ⟨fun r => TypeAlias.mapSpans r.span⟩

instance : Placed Trait :=
  ⟨fun r => Trait.mapSpans r.span⟩

instance : Placed Impl :=
  ⟨fun r => Impl.mapSpans r.span⟩

instance : Placed Module :=
  ⟨fun r => Module.mapSpans r.span⟩

instance : Placed Definition :=
  ⟨fun r => Definition.mapSpans r.span⟩

namespace Parser

variable {n : Nat}

------------------------------------------------------------
-- Functions
------------------------------------------------------------

/-
  A function is read again up to the end of its block; the
  `pub` in front moves along.
-/
theorem function_replays
    (n : Nat)
    (visibility : Option Span) :
    (function n visibility).Replays r true false
      (function n (visibility.map r.span)) := by
  have hParam :
      (param n).Replays r true true (param n) := by
    refine identifier_replays.first fun name =>
      (Replays.punct _).first fun _ =>
        (ty_replays n).last fun ty => .pure ?_
    simp [move, Param.mapSpans, r.span_through]
  have hReturn :
      (do let _ ← punct .arrow; ty n).Replays r true true
        (do let _ ← punct .arrow; ty n) :=
    (Replays.punct _).first fun _ => ty_replays n
  refine (Replays.keyword _).first fun start =>
    identifier_replays.first fun name =>
      typeParams_replays.before fun names =>
        (Replays.punct _).first fun _ =>
          hParam.commaList.first fun params =>
            (Replays.whenAt hReturn).before fun ty =>
              (block_replays n).last fun body => .pure ?_
  simp [move, Function.mapSpans, r.span_through,
    Option.getD_map]

/- A nested function does so with one level less. -/
theorem nestedFunction_replays
    (visibility : Option Span) :
    (nestedFunction n visibility).Replays r true false
      (nestedFunction n (visibility.map r.span)) := by
  cases n with
  | zero => exact .fail _
  | succ n => exact function_replays n visibility

/- A member function is read again with its own `pub`. -/
theorem memberFunction_replays :
    (memberFunction n).Replays r true false
      (memberFunction n) := by
  refine (Replays.keyword? _).before fun visibility =>
    .isAt_bind fun isThere => ?_
  cases isThere with
  | false => exact .fail _
  | true => exact nestedFunction_replays visibility

/-
  The functions between braces are read again up to the
  closing brace.
-/
theorem functionList_replays :
    (functionList n).Replays r true false
      (functionList n) :=
  (Replays.punct _).first fun _ =>
    memberFunction_replays.loose.itemsUntil

------------------------------------------------------------
-- Structs
------------------------------------------------------------

/-
  A field ends with its type, so what follows may matter.
-/
theorem field_replays :
    (field n).Replays r true true (field n) := by
  refine (Replays.keyword? _).before fun visibility =>
    identifier_replays.first fun name =>
      (Replays.punct _).first fun _ =>
        (ty_replays n).last fun ty => .pure ?_
  have hStart :
      (visibility.map r.span).getD (r.span name.span) =
        r.span (visibility.getD name.span) :=
    Option.getD_map r.span name.span visibility
  simp [move, Field.mapSpans, r.span_through, hStart]

/-
  A struct is read again up to its brace or its semicolon.
-/
theorem struct_replays
    (visibility : Option Span) :
    (struct n visibility).Replays r true false
      (struct n (visibility.map r.span)) := by
  have hBody :
      (structBody n).Replays r true false
        (structBody n) := by
    refine .peek_bind fun next => ?_
    cases next with
    | none => exact .fail _
    | some kind =>
        cases kind with
        | punct mark =>
            cases mark with
            | semicolon =>
                exact (Replays.punct _).last fun _ =>
                  .pure rfl
            | leftBrace =>
                exact (Replays.punct _).first fun _ =>
                  field_replays.commaList.last fun _ =>
                    .pure rfl
            | _ => exact .fail _
        | _ => exact .fail _
  refine (Replays.keyword _).first fun start =>
    identifier_replays.first fun name =>
      typeParams_replays.before fun names =>
        hBody.last fun parts => .pure ?_
  simp [move, Struct.mapSpans, r.span_through,
    Option.getD_map]

------------------------------------------------------------
-- Constants And Type Aliases
------------------------------------------------------------

/- A constant is read again up to its semicolon. -/
theorem constant_replays
    (visibility : Option Span) :
    (constant n visibility).Replays r true false
      (constant n (visibility.map r.span)) := by
  refine (Replays.keyword _).first fun start =>
    identifier_replays.first fun name =>
      (Replays.punct _).first fun _ =>
        (ty_replays n).before fun ty =>
          (Replays.punct _).first fun _ =>
            (expression_replays n).before fun value =>
              (Replays.punct _).last fun stop => .pure ?_
  simp [move, Constant.mapSpans, r.span_through,
    Option.getD_map]

theorem typeAlias_replays
    (visibility : Option Span) :
    (typeAlias n visibility).Replays r true false
      (typeAlias n (visibility.map r.span)) := by
  refine (Replays.keyword _).first fun start =>
    identifier_replays.first fun name =>
      typeParams_replays.before fun names =>
        (Replays.punct _).first fun _ =>
          (ty_replays n).before fun ty =>
            (Replays.punct _).last fun stop => .pure ?_
  simp [move, TypeAlias.mapSpans, r.span_through,
    Option.getD_map]

------------------------------------------------------------
-- Traits And Impls
------------------------------------------------------------

/- A trait is read again up to its closing brace. -/
theorem trait_replays
    (visibility : Option Span) :
    (trait n visibility).Replays r true false
      (trait n (visibility.map r.span)) := by
  refine (Replays.keyword _).first fun start =>
    identifier_replays.first fun name =>
      typeParams_replays.before fun names =>
        functionList_replays.last fun parts => .pure ?_
  simp [move, Trait.mapSpans, r.span_through,
    Option.getD_map]

theorem impl_replays :
    (impl n).Replays r true false (impl n) := by
  have hTrait :
      (do let _ ← keyword .forKw; ty n).Replays r true true
        (do let _ ← keyword .forKw; ty n) :=
    (Replays.keyword _).first fun _ => ty_replays n
  refine (Replays.keyword _).first fun start =>
    (ty_replays n).before fun ty =>
      (Replays.whenAt hTrait).before fun traitTy =>
        functionList_replays.last fun parts => .pure ?_
  simp [move, Impl.mapSpans, r.span_through]

------------------------------------------------------------
-- Modules And Definitions
------------------------------------------------------------

/-
  A module is read again if the definitions inside it are.
-/
theorem moduleOf_replays
    {inner inner' : Parser Definition}
    (hInner : inner.Replays r true false inner') :
    (moduleOf inner).Replays r true false
      (moduleOf inner') := by
  have hItem :
      (moduleItem inner).Replays r true true
        (moduleItem inner') := by
    refine .peek_bind fun next => ?_
    cases next with
    | none => exact .fail _
    | some kind => exact hInner.loose
  refine (Replays.keyword _).first fun start =>
    identifier_replays.first fun name =>
      (Replays.punct _).first fun _ =>
        hItem.itemsUntil.last fun parts => .pure ?_
  simp [move, Module.mapSpans, r.span_through]

/-
  A definition is read again by the parser that its keyword
  leads to.
-/
theorem definitionOf_replays
    {inner inner' : Parser Definition}
    (hInner : inner.Replays r true false inner') :
    (definitionOf n inner).Replays r true false
      (definitionOf n inner') := by
  refine (Replays.keyword? _).before fun visibility =>
    .peek_bind fun next => ?_
  cases next with
  | none => cases visibility <;> exact .fail _
  | some kind =>
      cases kind with
      | keyword k =>
          cases k with
          | modKw =>
              cases visibility with
              | none =>
                  exact (moduleOf_replays hInner).map
                    fun _ => rfl
              | some s => exact .fail _
          | implKw =>
              cases visibility with
              | none => exact impl_replays.map fun _ => rfl
              | some s => exact .fail _
          | fnKw =>
              cases visibility <;>
                exact (function_replays n _).map fun _ => rfl
          | traitKw =>
              cases visibility <;>
                exact (trait_replays _).map fun _ => rfl
          | structKw =>
              cases visibility <;>
                exact (struct_replays _).map fun _ => rfl
          | constKw =>
              cases visibility <;>
                exact (constant_replays _).map fun _ => rfl
          | typeKw =>
              cases visibility <;>
                exact (typeAlias_replays _).map fun _ => rfl
          | _ => cases visibility <;> exact .fail _
      | _ => cases visibility <;> exact .fail _

/-
  Definitions are read again at every level, whatever
  follows them.
-/
theorem definition_replays
    (n : Nat) :
    (definition n).Replays r true false (definition n) := by
  induction n with
  | zero => exact .fail _
  | succ n ih => exact definitionOf_replays ih

/- Behind the definitions of a file nothing can follow. -/
theorem definitions_replays
    (n : Nat) :
    (definitions n).Replays r false true (definitions n) := by
  have hStep :
      StepReplays r false true (definitionStep n)
        (definitionStep n) := by
    refine ⟨?_, ?_⟩
    · intro ts rest d hStep
      rcases definitionStep_eq_done.mp hStep with
        ⟨-, _, hRun, hPart⟩ | ⟨-, -, hPart⟩
      · cases hPart
        refine ((definition_replays n).loose hRun).shorter.imp
          fun us ws hRun => ?_
        rcases hRun with ⟨hLess, hRun⟩
        exact definitionStep_eq_done.mpr
          (.inl
            ⟨List.ne_nil_of_length_pos (by omega), move r d,
              hRun, rfl⟩)
      · cases hPart
    · intro ts rest u hStep
      rcases definitionStep_eq_done.mp hStep with
        ⟨-, _, -, hPart⟩ | ⟨rfl, rfl, -⟩
      · cases hPart
      · refine .here fun rest' hRest => ?_
        have hEnd : rest' = [] := by
          rcases hRest rfl with rfl | hSame
          · rfl
          · cases rest' with
            | nil => rfl
            | cons t rest' => cases hSame
        exact definitionStep_eq_done.mpr
          (.inr ⟨hEnd, hEnd, rfl⟩)
  exact (hStep.collect (.inl rfl)).last fun _ => .pure rfl

end Parser

end FeSyntax
