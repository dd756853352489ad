import FeSyntax.Proofs.Parsing.CorrespondExpression

/-
  This file proves that the parsers of definitions and of
  whole files do the same on tokens that are the same up to
  payloads.

  Key theorems include:
    * `Parser.function_corresponds`
    * `Parser.definitionOf_corresponds`
    * `Parser.definition_corresponds`
    * `Parser.definitions_corresponds`
-/

namespace FeSyntax

variable {r : Renaming}
variable {s s' : Span}

------------------------------------------------------------
-- Trees That Are Alike
------------------------------------------------------------

instance : Shaped Param :=
  ⟨Param.rename, Param.mapSpans .forget⟩

instance : Shaped Field :=
  ⟨Field.rename, Field.mapSpans .forget⟩

instance : Shaped Function :=
  ⟨Function.rename, Function.mapSpans .forget⟩

instance : Shaped Struct :=
  ⟨Struct.rename, Struct.mapSpans .forget⟩

instance : Shaped Constant :=
  ⟨Constant.rename, Constant.mapSpans .forget⟩

instance : Shaped TypeAlias :=
  ⟨TypeAlias.rename, TypeAlias.mapSpans .forget⟩

instance : Shaped Trait :=
  ⟨Trait.rename, Trait.mapSpans .forget⟩

instance : Shaped Impl :=
  ⟨Impl.rename, Impl.mapSpans .forget⟩

instance : Shaped Module :=
  ⟨Module.rename, Module.mapSpans .forget⟩

instance : Shaped Definition :=
  ⟨Definition.rename, Definition.mapSpans .forget⟩

section Trees

variable {b b' : Bool}
variable {i j : Identifier}
variable {is js : List Identifier}
variable {ty ty' : Ty}
variable (hPub : b' = b)
variable (hName : Alike r i j)
variable (hParams : Alike r is js)

/- Parameters are alike if their names and types are. -/
include hName in
theorem Param.alike
    (hTy : Alike r ty ty') :
    Alike r (mk i ty s) (mk j ty' s') := by
  simpa [Alike, Shaped.shape, Shaped.rename, rename,
    mapSpans, Span.forget] using And.intro hName hTy

/-
  Fields are alike if they are public together and their
  names and types are alike.
-/
include hPub hName in
theorem Field.alike
    (hTy : Alike r ty ty') :
    Alike r (mk b i ty s) (mk b' j ty' s') := by
  simpa [Alike, Shaped.shape, Shaped.rename, rename,
    mapSpans, Span.forget, hPub] using And.intro hName hTy

/- Functions are alike if all their parts are. -/
include hPub hName hParams in
theorem Function.alike
    {ps ps' : List Param}
    {o o' : Option Ty}
    {body body' : Block}
    (hTypes : Alike r ps ps')
    (hReturn : Alike r o o')
    (hBody : Alike r body body') :
    Alike r (mk b i is ps o body s)
      (mk b' j js ps' o' body' s') := by
  simpa [Alike, Shaped.shape, Shaped.rename, rename,
    mapSpans, Span.forget, hPub]
    using
      And.intro hName (And.intro hParams
        (And.intro hTypes (And.intro hReturn hBody)))

/-
  Structs are alike if all their parts are; a unit struct is
  like unit structs only.
-/
include hPub hName hParams in
theorem Struct.alike
    {fields fields' : Option (List Field)}
    (hFields : Alike r fields fields') :
    Alike r (mk b i is fields s)
      (mk b' j js fields' s') := by
  simpa [Alike, Shaped.shape, Shaped.rename, rename,
    mapSpans, Span.forget, hPub]
    using And.intro hName (And.intro hParams hFields)

/- Constants are alike if all their parts are. -/
include hPub hName in
theorem Constant.alike
    {e e' : Expression}
    (hTy : Alike r ty ty')
    (hValue : Alike r e e') :
    Alike r (mk b i ty e s) (mk b' j ty' e' s') := by
  simpa [Alike, Shaped.shape, Shaped.rename, rename,
    mapSpans, Span.forget, hPub]
    using And.intro hName (And.intro hTy hValue)

/- Type aliases are alike if all their parts are. -/
include hPub hName hParams in
theorem TypeAlias.alike
    (hTy : Alike r ty ty') :
    Alike r (mk b i is ty s) (mk b' j js ty' s') := by
  simpa [Alike, Shaped.shape, Shaped.rename, rename,
    mapSpans, Span.forget, hPub]
    using And.intro hName (And.intro hParams hTy)

/-
  Traits are alike if all their parts are, their functions
  in turn.
-/
include hPub hName hParams in
theorem Trait.alike
    {fs fs' : List Function}
    (hFunctions : Alike r fs fs') :
    Alike r (mk b i is fs s) (mk b' j js fs' s') := by
  simpa [Alike, Shaped.shape, Shaped.rename, rename,
    mapSpans, Span.forget, hPub]
    using And.intro hName (And.intro hParams hFunctions)

/-
  Implementations are alike if they are of types and of
  traits that are alike.
-/
theorem Impl.alike
    {o o' : Option Ty}
    {fs fs' : List Function}
    (hTy : Alike r ty ty')
    (hTrait : Alike r o o')
    (hFunctions : Alike r fs fs') :
    Alike r (mk ty o fs s) (mk ty' o' fs' s') := by
  simpa [Alike, Shaped.shape, Shaped.rename, rename,
    mapSpans, Span.forget]
    using And.intro hTy (And.intro hTrait hFunctions)

/- Modules are alike if their names and definitions are. -/
include hName in
theorem Module.alike
    {ds ds' : List Definition}
    (hDefinitions : Alike r ds ds') :
    Alike r (mk i ds s) (mk j ds' s') := by
  simpa [Alike, Shaped.shape, Shaped.rename, rename,
    mapSpans, Span.forget]
    using And.intro hName hDefinitions

end Trees

namespace Definition

/- A definition is as alike as the module that it is. -/
theorem alike_module
    {m m' : Module}
    (hModule : Alike r m m') :
    Alike r (module m) (module m') :=
  congrArg module hModule

theorem alike_function
    {f f' : Function}
    (hFunction : Alike r f f') :
    Alike r (function f) (function f') :=
  congrArg function hFunction

theorem alike_struct
    {d d' : Struct}
    (hStruct : Alike r d d') :
    Alike r (struct d) (struct d') :=
  congrArg struct hStruct

theorem alike_constant
    {c c' : Constant}
    (hConstant : Alike r c c') :
    Alike r (constant c) (constant c') :=
  congrArg constant hConstant

theorem alike_typeAlias
    {a a' : TypeAlias}
    (hTypeAlias : Alike r a a') :
    Alike r (typeAlias a) (typeAlias a') :=
  congrArg typeAlias hTypeAlias

theorem alike_trait
    {t t' : Trait}
    (hTrait : Alike r t t') :
    Alike r (trait t) (trait t') :=
  congrArg trait hTrait

theorem alike_impl
    {i i' : Impl}
    (hImpl : Alike r i i') :
    Alike r (impl i) (impl i') :=
  congrArg impl hImpl

end Definition

------------------------------------------------------------
-- Functions
------------------------------------------------------------

namespace Parser

/- A type behind the token that leads to it. -/
theorem leadingTy_corresponds
    {lead : Parser Span}
    {kind : TokenKind}
    (hFixed : ∀ k, r.kind k = kind ↔ k = kind)
    (hLead : lead.Corresponds r lead)
    (n : Nat) :
    (whenAt kind (do let _ ← lead; ty n)).Corresponds r
      (whenAt kind (do let _ ← lead; ty n)) :=
  .whenAt hFixed
    (hLead.bind fun _ _ _ => ty_corresponds n)

/- A parameter is passed in the same places, and renamed. -/
theorem param_corresponds
    (n : Nat) :
    (param n).Corresponds r (param n) :=
  .bind identifier_corresponds fun _ _ hName =>
    .bind (.punct _) fun _ _ _ =>
      .bind (ty_corresponds n) fun _ _ hTy =>
        .pure (Param.alike hName hTy)

/-
  A function is passed in the same places, whether it has a
  return type or not.
-/
theorem function_corresponds
    (n : Nat)
    {v v' : Option Span}
    (hPub : Alike r v v') :
    (function n v).Corresponds r (function n v') := by
  refine .bind (.keyword _) fun _ _ _ =>
    .bind identifier_corresponds fun _ _ hName =>
      .bind typeParams_corresponds fun _ _ hParams =>
        .bind (.punct _) fun _ _ _ =>
          .bind
            (.commaList (param_corresponds n)
              (param_passes n) _) ?_
  rintro ⟨ps, s⟩ ⟨ps', s'⟩ hPair
  exact .bind
    (leadingTy_corresponds (fun _ => r.kind_eq_punct_iff)
      (.punct _) n)
    fun _ _ hReturn =>
      .bind (block_corresponds n) fun _ _ hBody =>
        .pure
          (Function.alike hPub.isSome_eq hName hParams
            (alike_pair.mp hPair).1 hReturn hBody)

/-
  A member function is public in both texts or in neither.
-/
theorem memberFunction_corresponds
    (n : Nat) :
    (memberFunction n).Corresponds r (memberFunction n) := by
  refine .bind (.keyword? _) fun v v' hPub =>
    .bind (.isAt fun _ => r.kind_eq_keyword_iff)
      fun isThere isThere' hSame => ?_
  rw [alike_bool.mp hSame]
  cases isThere with
  | false => exact .fail _
  | true =>
      cases n with
      | zero => exact .fail _
      | succ n => exact function_corresponds n hPub

/- The functions between braces are passed one by one. -/
theorem functionList_corresponds
    (n : Nat) :
    (functionList n).Corresponds r (functionList n) :=
  .bind (.punct _) fun _ _ _ =>
    .itemsUntil (memberFunction_corresponds n)
      (memberFunction_passes n) _

------------------------------------------------------------
-- Definitions
------------------------------------------------------------

/-
  A field is passed in the same places, its `pub` included.
-/
theorem field_corresponds
    (n : Nat) :
    (field n).Corresponds r (field n) :=
  .bind (.keyword? _) fun _ _ hPub =>
    .bind identifier_corresponds fun _ _ hName =>
      .bind (.punct _) fun _ _ _ =>
        .bind (ty_corresponds n) fun _ _ hTy =>
          .pure (Field.alike hPub.isSome_eq hName hTy)

/-
  The body of a struct is opened, or left out, in both
  texts.
-/
theorem structBody_corresponds
    (n : Nat) :
    (structBody n).Corresponds r (structBody n) := by
  refine .peek_bind (.fail _) fun kind => ?_
  cases kind with
  | punct mark =>
      cases mark with
      | semicolon =>
          exact .bind (.punct _) fun _ _ _ =>
            .pure
              (alike_pair.mpr ⟨alike_none, alike_span _ _⟩)
      | leftBrace =>
          refine .bind (.punct _) fun _ _ _ =>
            .bind
              (.commaList (field_corresponds n)
                (field_passes n) _) ?_
          rintro ⟨fields, s⟩ ⟨fields', s'⟩ hPair
          exact .pure
            (alike_pair.mpr
              ⟨alike_some.mpr (alike_pair.mp hPair).1,
                alike_span _ _⟩)
      | _ => exact .fail _
  | _ => exact .fail _

section Public

variable (n : Nat)
variable {v v' : Option Span}
variable (hPub : Alike r v v')

include hPub

/- A struct is passed in the same places. -/
theorem struct_corresponds :
    (struct n v).Corresponds r (struct n v') := by
  refine .bind (.keyword _) fun _ _ _ =>
    .bind identifier_corresponds fun _ _ hName =>
      .bind typeParams_corresponds fun _ _ hParams =>
        .bind (structBody_corresponds n) ?_
  rintro ⟨fields, s⟩ ⟨fields', s'⟩ hPair
  exact .pure
    (Struct.alike hPub.isSome_eq hName hParams
      (alike_pair.mp hPair).1)

/- A constant is passed in the same places. -/
theorem constant_corresponds :
    (constant n v).Corresponds r (constant n v') :=
  .bind (.keyword _) fun _ _ _ =>
    .bind identifier_corresponds fun _ _ hName =>
      .bind (.punct _) fun _ _ _ =>
        .bind (ty_corresponds n) fun _ _ hTy =>
          .bind (.punct _) fun _ _ _ =>
            .bind (expression_corresponds n)
              fun _ _ hValue =>
                .bind (.punct _) fun _ _ _ =>
                  .pure
                    (Constant.alike hPub.isSome_eq hName hTy
                      hValue)

/- A type alias is passed in the same places. -/
theorem typeAlias_corresponds :
    (typeAlias n v).Corresponds r (typeAlias n v') :=
  .bind (.keyword _) fun _ _ _ =>
    .bind identifier_corresponds fun _ _ hName =>
      .bind typeParams_corresponds fun _ _ hParams =>
        .bind (.punct _) fun _ _ _ =>
          .bind (ty_corresponds n) fun _ _ hTy =>
            .bind (.punct _) fun _ _ _ =>
              .pure
                (TypeAlias.alike hPub.isSome_eq hName
                  hParams hTy)

/- A trait is passed in the same places. -/
theorem trait_corresponds :
    (trait n v).Corresponds r (trait n v') := by
  refine .bind (.keyword _) fun _ _ _ =>
    .bind identifier_corresponds fun _ _ hName =>
      .bind typeParams_corresponds fun _ _ hParams =>
        .bind (functionList_corresponds n) ?_
  rintro ⟨fs, s⟩ ⟨fs', s'⟩ hPair
  exact .pure
    (Trait.alike hPub.isSome_eq hName hParams
      (alike_pair.mp hPair).1)

end Public

/-
  An implementation is of a trait in both texts or in
  neither.
-/
theorem impl_corresponds
    (n : Nat) :
    (impl n).Corresponds r (impl n) := by
  refine .bind (.keyword _) fun _ _ _ =>
    .bind (ty_corresponds n) fun _ _ hTy =>
      .bind
        (leadingTy_corresponds
          (fun _ => r.kind_eq_keyword_iff) (.keyword _) n)
        fun _ _ hTrait =>
          .bind (functionList_corresponds n) ?_
  rintro ⟨fs, s⟩ ⟨fs', s'⟩ hPair
  exact .pure
    (Impl.alike hTy hTrait (alike_pair.mp hPair).1)

/- A module corresponds if the definitions inside it do. -/
theorem moduleOf_corresponds
    {n : Nat}
    {inner : Parser Definition}
    (hInner : inner.Corresponds r inner)
    (hPasses : inner.Passes 1 n) :
    (moduleOf inner).Corresponds r (moduleOf inner) := by
  have hItem :
      (moduleItem inner).Corresponds r (moduleItem inner) :=
    .peek_bind (.fail _) fun _ => hInner
  refine .bind (.keyword _) fun _ _ _ =>
    .bind identifier_corresponds fun _ _ hName =>
      .bind (.punct _) fun _ _ _ =>
        .bind
          (.itemsUntil hItem (moduleItem_passes hPasses) _)
          ?_
  rintro ⟨ds, s⟩ ⟨ds', s'⟩ hPair
  exact .pure
    (Module.alike hName (alike_pair.mp hPair).1)

/-
  The keyword of a definition is not renamed, so it leads
  the same way in both texts.
-/
theorem definitionOf_corresponds
    {n : Nat}
    {inner : Parser Definition}
    (hInner : inner.Corresponds r inner)
    (hPasses : inner.Passes 1 n) :
    (definitionOf n inner).Corresponds r
      (definitionOf n inner) := by
  have hModule := moduleOf_corresponds hInner hPasses
  have hImpl := impl_corresponds (r := r) n
  refine .bind (.keyword? _) fun v v' hPub =>
    .peek_bind ?_ fun kind => ?_
  · rcases hPub.option_cases with
      ⟨rfl, rfl⟩ | ⟨s, s', rfl, rfl, -⟩ <;> exact .fail _
  have hFunction :=
    (function_corresponds n hPub).map fun _ _ =>
      Definition.alike_function
  have hTrait :=
    (trait_corresponds n hPub).map fun _ _ =>
      Definition.alike_trait
  have hStruct :=
    (struct_corresponds n hPub).map fun _ _ =>
      Definition.alike_struct
  have hConstant :=
    (constant_corresponds n hPub).map fun _ _ =>
      Definition.alike_constant
  have hTypeAlias :=
    (typeAlias_corresponds n hPub).map fun _ _ =>
      Definition.alike_typeAlias
  rcases hPub.option_cases with
    ⟨rfl, rfl⟩ | ⟨s, s', rfl, rfl, -⟩
  · cases kind with
    | keyword k =>
        cases k with
        | modKw =>
            exact hModule.map fun _ _ => Definition.alike_module
        | implKw =>
            exact hImpl.map fun _ _ => Definition.alike_impl
        | fnKw => exact hFunction
        | traitKw => exact hTrait
        | structKw => exact hStruct
        | constKw => exact hConstant
        | typeKw => exact hTypeAlias
        | _ => exact .fail _
    | _ => exact .fail _
  · cases kind with
    | keyword k =>
        cases k with
        | fnKw => exact hFunction
        | traitKw => exact hTrait
        | structKw => exact hStruct
        | constKw => exact hConstant
        | typeKw => exact hTypeAlias
        | _ => exact .fail _
    | _ => exact .fail _

/- Definitions correspond at every level. -/
theorem definition_corresponds
    (n : Nat) :
    (definition n).Corresponds r (definition n) := by
  induction n with
  | zero => exact .fail _
  | succ n ih =>
      exact definitionOf_corresponds ih (definition_passes n)

/- So do the definitions up to the end of a text. -/
theorem definitions_corresponds
    (n : Nat) :
    (definitions n).Corresponds r (definitions n) := by
  have hStep :
      (definitionStep n).Corresponds r
        (definitionStep n) :=
    .peek_bind (.pure (alike_inr.mpr (alike_unit _ _)))
      fun _ => (definition_corresponds n).map
        fun _ _ => alike_inl.mpr
  refine .bind (.collect hStep (.definitionStep n)) ?_
  rintro ⟨ds, _⟩ ⟨ds', _⟩ hParts
  exact .pure (alike_pair.mp hParts).1

end Parser

end FeSyntax
