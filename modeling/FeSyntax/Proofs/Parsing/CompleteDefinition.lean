import FeSyntax.Proofs.Parsing.CompleteFunction

/-
  This file proves that the parsers of definitions and files
  are complete: every definition that fits into some levels
  is read back from each of its spellings with these levels,
  whatever comes next.

  Key theorems include:
    * `Parser.struct_complete`
    * `Parser.constant_complete`
    * `Parser.moduleOf_complete`
    * `Parser.definition_complete`
    * `Parser.definitions_complete`
-/

namespace FeSyntax

namespace Parser

variable {n : Nat}
variable {ts rest : List Token}

------------------------------------------------------------
-- Structs, Constants, Type Aliases And Traits
------------------------------------------------------------

/-
  Whether a struct has fields or a semicolon, its body is
  read back.
-/
theorem structBody_complete
    (n : Nat) :
    (structBody n).Complete
      (fun body => Struct.bodySpellings body.1)
      (fun body =>
        ∀ fields ∈ body.1, ∀ f ∈ fields, f.Fits n)
      EndsAlways
      (fun body =>
        body.1.map
          (List.map (Field.mapSpans .forget))) := by
  intro x ts rest hFits hReads _
  rcases x with ⟨fields, span⟩
  cases fields with
  | none =>
      rcases punct_complete hReads with ⟨stop, hStop⟩
      exact
        ⟨(none, stop),
          structBody_eq_done.mpr (.inl ⟨stop, hStop, rfl⟩),
          rfl⟩
  | some fields =>
      simp only [Struct.bodySpellings, mul_assoc] at hReads
      rcases reads_mul_iff.mp hReads with
        ⟨mid, hOpen, hReads⟩
      rcases punct_complete hOpen with ⟨brace, hBrace⟩
      have hField :
          ∀ f : Field, f.Fits n →
            StartsWith (· ≠ .punct .rightBrace)
              f.spellings :=
        fun f _ => f.startsWith.mono fun _ hKind => hKind _
      rcases commaList_complete (field_complete n)
          (by simp [EndsPath]) (by simp [EndsPath])
          (by simp) hField (x := (fields, span))
          (hFits fields rfl) hReads trivial with
        ⟨⟨ys, stop⟩, hParse, hSame⟩
      have hBody :
          structBody n ts = .done (some ys, stop) rest :=
        structBody_eq_done.mpr
          (.inr
            ⟨brace, mid, hBrace, ys, stop, hParse, rfl⟩)
      exact ⟨(some ys, stop), hBody, congrArg some hSame⟩

/- A body starts with its brace, or with a semicolon. -/
theorem structBody_nextKind
    {fields : Option (List Field)}
    (hReads : Reads ts (Struct.bodySpellings fields) rest) :
    nextKind ts = some (.punct .semicolon) ∨
      nextKind ts = some (.punct .leftBrace) := by
  cases fields with
  | none =>
      rcases punct_complete hReads with ⟨stop, hStop⟩
      exact .inl (nextKind_of_punct hStop)
  | some fields =>
      simp only [Struct.bodySpellings, mul_assoc] at hReads
      exact .inr hReads.nextKind_eq

/- A struct is read back, with `pub` in front or without. -/
theorem struct_complete
    (n : Nat) :
    CompleteVisible .structKw (struct n) Struct.spellings
      (Struct.Fits n) (Struct.mapSpans .forget) := by
  intro x ts rest hFits hReads
  rcases x with ⟨isPub, name, typeParams, fields, span⟩
  have hFitsFields := Struct.fits_iff.mp hFits
  simp only [Struct.spellings, mul_assoc] at hReads
  rcases visibleName_complete (by decide) hReads with
    ⟨v, mid, kw, ts₁, name', ts₂, hPub, rfl, hNext,
     hKeyword, hName, hSameName, hReads⟩
  rcases reads_mul_iff.mp hReads with
    ⟨ts₃, hReadsNames, hReadsBody⟩
  have hNotAngle :
      nextKind ts₃ ≠ some (.punct .leftAngle) := by
    rcases structBody_nextKind hReadsBody with hBody | hBody
    · rw [hBody]
      simp
    · rw [hBody]
      simp
  rcases typeParams_complete trivial hReadsNames hNotAngle
    with ⟨names, hNames, hSameNames⟩
  rcases structBody_complete n (x := (fields, span))
      hFitsFields hReadsBody trivial with
    ⟨⟨fields', stop⟩, hBody, hSameBody⟩
  refine
    ⟨v, mid,
      { isPub := v.isSome
        name := name'
        typeParams := names
        fields := fields'
        span := (v.getD kw).through stop },
      hPub, hNext, ?_, ?_⟩
  · simp only [struct, bind_eq_done, pure_eq_done,
      Prod.exists]
    exact
      ⟨kw, ts₁, hKeyword, name', ts₂, hName, names, ts₃,
        hNames, fields', stop, rest, hBody, rfl, rfl⟩
  · simp only at hSameBody
    simp only [Struct.mapSpans, hSameName, hSameNames,
      hSameBody]
    rfl

theorem constant_complete
    (n : Nat) :
    CompleteVisible .constKw (constant n)
      Constant.spellings (Constant.Fits n)
      (Constant.mapSpans .forget) := by
  intro x ts rest hFits hReads
  rcases x with ⟨isPub, name, ty, value, span⟩
  rcases Constant.fits_iff.mp hFits with
    ⟨hFitsTy, hFitsValue⟩
  simp only [Constant.spellings, mul_assoc] at hReads
  rcases visibleName_complete (by decide) hReads with
    ⟨v, mid, kw, ts₁, name', ts₂, hPub, rfl, hNext,
     hKeyword, hName, hSameName, hReads⟩
  simp only [reads_mul_iff] at hReads
  rcases hReads with
    ⟨ts₃, hReadsColon, ts₄, hReadsTy, ts₅, hReadsEquals,
     ts₆, hReadsValue, hReadsStop⟩
  rcases punct_complete hReadsColon with ⟨colon, hColon⟩
  rcases punct_complete hReadsEquals with ⟨equals, hEquals⟩
  rcases punct_complete hReadsStop with ⟨stop, hStop⟩
  have hEndsTy := EndsPath.of_punct hEquals (by decide)
  rcases ty_complete n hFitsTy hReadsTy hEndsTy with
    ⟨ty', hTy, hSameTy⟩
  have hEndsValue := EndsPath.of_punct hStop (by decide)
  rcases expression_complete n hFitsValue hReadsValue
      hEndsValue with
    ⟨value', hValue, hSameValue⟩
  refine
    ⟨v, mid,
      { isPub := v.isSome
        name := name'
        ty := ty'
        value := value'
        span := (v.getD kw).through stop },
      hPub, hNext, ?_, ?_⟩
  · simp only [constant, bind_eq_done, pure_eq_done]
    exact
      ⟨kw, ts₁, hKeyword, name', ts₂, hName, colon, ts₃,
        hColon, ty', ts₄, hTy, equals, ts₅, hEquals, value',
        ts₆, hValue, stop, rest, hStop, rfl, rfl⟩
  · simp only [Constant.mapSpans, hSameName, hSameTy,
      hSameValue]
    rfl

theorem typeAlias_complete
    (n : Nat) :
    CompleteVisible .typeKw (typeAlias n)
      TypeAlias.spellings (fun a => a.ty.Fits n)
      (TypeAlias.mapSpans .forget) := by
  intro x ts rest hFits hReads
  rcases x with ⟨isPub, name, typeParams, ty, span⟩
  simp only [TypeAlias.spellings, mul_assoc] at hReads
  rcases visibleName_complete (by decide) hReads with
    ⟨v, mid, kw, ts₁, name', ts₂, hPub, rfl, hNext,
     hKeyword, hName, hSameName, hReads⟩
  simp only [reads_mul_iff] at hReads
  rcases hReads with
    ⟨ts₃, hReadsNames, ts₄, hReadsEquals, ts₅, hReadsTy,
     hReadsStop⟩
  rcases punct_complete hReadsEquals with ⟨equals, hEquals⟩
  rcases punct_complete hReadsStop with ⟨stop, hStop⟩
  have hNotAngle :
      nextKind ts₃ ≠ some (.punct .leftAngle) := by
    rw [nextKind_of_punct hEquals]
    simp
  rcases typeParams_complete trivial hReadsNames hNotAngle
    with ⟨names, hNames, hSameNames⟩
  have hEnds := EndsPath.of_punct hStop (by decide)
  rcases ty_complete n hFits hReadsTy hEnds with
    ⟨ty', hTy, hSameTy⟩
  refine
    ⟨v, mid,
      { isPub := v.isSome
        name := name'
        typeParams := names
        ty := ty'
        span := (v.getD kw).through stop },
      hPub, hNext, ?_, ?_⟩
  · simp only [typeAlias, bind_eq_done, pure_eq_done]
    exact
      ⟨kw, ts₁, hKeyword, name', ts₂, hName, names, ts₃,
        hNames, equals, ts₄, hEquals, ty', ts₅, hTy, stop,
        rest, hStop, rfl, rfl⟩
  · simp only [TypeAlias.mapSpans, hSameName, hSameNames,
      hSameTy]
    rfl

theorem trait_complete
    (n : Nat) :
    CompleteVisible .traitKw (trait n) Trait.spellings
      (Trait.Fits n) (Trait.mapSpans .forget) := by
  intro x ts rest hFits hReads
  rcases x with ⟨isPub, name, typeParams, functions, span⟩
  have hFitsAll := Trait.fits_iff.mp hFits
  simp only [Trait.spellings, mul_assoc] at hReads
  rcases visibleName_complete (by decide) hReads with
    ⟨v, mid, kw, ts₁, name', ts₂, hPub, rfl, hNext,
     hKeyword, hName, hSameName, hReads⟩
  rcases reads_mul_iff.mp hReads with
    ⟨ts₃, hReadsNames, hReadsFunctions⟩
  have hNotAngle :
      nextKind ts₃ ≠ some (.punct .leftAngle) := by
    rw [functionList_nextKind hReadsFunctions]
    simp
  rcases typeParams_complete trivial hReadsNames hNotAngle
    with ⟨names, hNames, hSameNames⟩
  rcases functionList_complete n (x := (functions, span))
      hFitsAll hReadsFunctions trivial with
    ⟨⟨functions', stop⟩, hFunctions, hSameFunctions⟩
  refine
    ⟨v, mid,
      { isPub := v.isSome
        name := name'
        typeParams := names
        functions := functions'
        span := (v.getD kw).through stop },
      hPub, hNext, ?_, ?_⟩
  · simp only [trait, bind_eq_done, pure_eq_done,
      Prod.exists]
    exact
      ⟨kw, ts₁, hKeyword, name', ts₂, hName, names, ts₃,
        hNames, functions', stop, rest, hFunctions, rfl,
        rfl⟩
  · simp only at hSameFunctions
    simp only [Trait.mapSpans, hSameName, hSameNames,
      hSameFunctions]
    rfl

------------------------------------------------------------
-- Impls And Modules
------------------------------------------------------------

/- An implementation is read back, of a trait or not. -/
theorem impl_complete
    (n : Nat) :
    (impl n).Complete Impl.spellings (Impl.Fits n)
      EndsAlways (Impl.mapSpans .forget) := by
  intro x ts rest hFits hReads _
  rcases x with ⟨ty, traitTy, functions, span⟩
  rcases Impl.fits_iff.mp hFits with
    ⟨hFitsTy, hFitsTrait, hFitsAll⟩
  simp only [Impl.spellings, mul_assoc,
    reads_mul_iff] at hReads
  rcases hReads with
    ⟨ts₁, hReadsKeyword, ts₂, hReadsTy, ts₃, hReadsTrait,
     hReadsFunctions⟩
  rcases keyword_complete hReadsKeyword with ⟨kw, hKeyword⟩
  have hBrace := functionList_nextKind hReadsFunctions
  have hNextTrait : EndsPath (nextKind ts₂) := by
    rcases hReadsTrait.nextKind_behind with hNext | hNext
    · rw [hNext]
      simp [EndsPath]
    · rw [hNext, hBrace]
      simp [EndsPath]
  rcases ty_complete n hFitsTy hReadsTy hNextTrait with
    ⟨ty', hTy, hSameTy⟩
  rcases whenAt_complete (ty_complete n) hFitsTrait
      hReadsTrait (by rw [hBrace]; simp [EndsPath])
      (by rw [hBrace]; simp) with
    ⟨traitTy', hTrait, hSameTrait⟩
  rcases functionList_complete n (x := (functions, span))
      hFitsAll hReadsFunctions trivial with
    ⟨⟨functions', stop⟩, hFunctions, hSameFunctions⟩
  refine
    ⟨⟨ty', traitTy', functions', kw.through stop⟩, ?_, ?_⟩
  · simp only [impl, bind_eq_done, pure_eq_done,
      Prod.exists]
    exact
      ⟨kw, ts₁, hKeyword, ty', ts₂, hTy, traitTy', ts₃,
        hTrait, functions', stop, rest, hFunctions, rfl,
        rfl⟩
  · simp only at hSameFunctions
    simp only [Impl.mapSpans, hSameTy, hSameTrait,
      hSameFunctions]
    rfl

section Definitions

variable {inner : Parser Definition}
variable
  (hInner :
    inner.Complete Definition.spellings (Definition.Fits n)
      EndsAlways (Definition.mapSpans .forget))

include hInner

/-
  A definition inside a module is read back like any other.
-/
theorem moduleItem_complete :
    (moduleItem inner).Complete Definition.spellings
      (Definition.Fits n) EndsAlways
      (Definition.mapSpans .forget) := by
  intro x ts rest hFits hReads hNext
  rcases hInner hFits hReads hNext with ⟨y, hParse, hSame⟩
  have hMore := hReads.ne_nil x.startsWith
  exact
    ⟨y, moduleItem_eq_done.mpr ⟨hMore, hParse⟩, hSame⟩

/- A module is read back up to its closing brace. -/
theorem moduleOf_complete :
    (moduleOf inner).Complete Module.spellings
      (Module.Fits n) EndsAlways
      (Module.mapSpans .forget) := by
  intro x ts rest hFits hReads _
  rcases x with ⟨name, definitions, span⟩
  have hFitsAll := Module.fits_mk.mp hFits
  simp only [Module.spellings,
    Module.definitionSpellings_eq, mul_assoc] at hReads
  rcases reads_mul_iff.mp hReads with
    ⟨ts₁, hReadsKeyword, hReads⟩
  rcases reads_mul_iff.mp hReads with
    ⟨ts₂, hReadsName, hReads⟩
  rcases reads_mul_iff.mp hReads with
    ⟨ts₃, hReadsBrace, hReads⟩
  rcases keyword_complete hReadsKeyword with ⟨kw, hKeyword⟩
  rcases identifier_complete trivial hReadsName trivial with
    ⟨name', hName, hSameName⟩
  rcases punct_complete hReadsBrace with ⟨brace, hBrace⟩
  rcases itemsUntil_complete (moduleItem_complete hInner)
      (fun d _ => d.startsWith)
      (fun hKind => hKind .rightBrace rfl)
      (fun _ _ => trivial) trivial
      (x := (definitions, span)) hFitsAll hReads
      trivial with
    ⟨⟨definitions', stop⟩, hParse, hSame⟩
  refine ⟨⟨name', definitions', kw.through stop⟩, ?_, ?_⟩
  · simp only [moduleOf, bind_eq_done, pure_eq_done,
      Prod.exists]
    exact
      ⟨kw, ts₁, hKeyword, name', ts₂, hName, brace, ts₃,
        hBrace, definitions', stop, rest, hParse, rfl, rfl⟩
  · simp only [Module.mapSpans,
      Module.mapDefinitionSpans_eq, hSameName]
    exact congrArg (Module.mk _ · _) hSame

------------------------------------------------------------
-- Definitions And Files
------------------------------------------------------------

/-
  Whichever form a definition has, its keyword leads to that
  form.
-/
theorem definitionOf_complete :
    (definitionOf n inner).Complete Definition.spellings
      (Definition.Fits (n + 1)) EndsAlways
      (Definition.mapSpans .forget) := by
  intro x ts rest hFits hReads _
  rw [Definition.fits_succ] at hFits
  cases x with
  | module m =>
      rw [Definition.spellings] at hReads
      rcases moduleOf_complete hInner hFits hReads trivial
        with ⟨y, hParse, hSame⟩
      have hNext :
          nextKind ts = some (.keyword .modKw) := by
        rcases m with ⟨name, definitions, span⟩
        simp only [Module.spellings, mul_assoc] at hReads
        exact hReads.nextKind_eq
      refine ⟨.module y, ?_, ?_⟩
      · exact definitionOf_eq_done.mpr
          ⟨none, ts, keyword?_none (by simp [hNext]),
            .inl ⟨rfl, hNext, y, hParse, rfl⟩⟩
      · rw [Definition.mapSpans, Definition.mapSpans, hSame]
  | impl i =>
      rw [Definition.spellings] at hReads
      rcases impl_complete n hFits hReads trivial with
        ⟨y, hParse, hSame⟩
      have hNext :
          nextKind ts = some (.keyword .implKw) := by
        simp only [Impl.spellings, mul_assoc] at hReads
        exact hReads.nextKind_eq
      refine ⟨.impl y, ?_, ?_⟩
      · exact definitionOf_eq_done.mpr
          ⟨none, ts, keyword?_none (by simp [hNext]),
            .inr (.inl ⟨rfl, hNext, y, hParse, rfl⟩)⟩
      · rw [Definition.mapSpans, Definition.mapSpans, hSame]
  | function f =>
      rw [Definition.spellings] at hReads
      rcases function_complete n hFits hReads with
        ⟨v, mid, y, hPub, hNext, hParse, hSame⟩
      refine ⟨.function y, ?_, ?_⟩
      · exact definitionOf_eq_done.mpr
          ⟨v, mid, hPub,
            .inr (.inr (.inl ⟨hNext, y, hParse, rfl⟩))⟩
      · rw [Definition.mapSpans, Definition.mapSpans, hSame]
  | trait t =>
      rw [Definition.spellings] at hReads
      rcases trait_complete n hFits hReads with
        ⟨v, mid, y, hPub, hNext, hParse, hSame⟩
      refine ⟨.trait y, ?_, ?_⟩
      · exact definitionOf_eq_done.mpr
          ⟨v, mid, hPub,
            .inr (.inr (.inr (.inl
              ⟨hNext, y, hParse, rfl⟩)))⟩
      · rw [Definition.mapSpans, Definition.mapSpans, hSame]
  | struct s =>
      rw [Definition.spellings] at hReads
      rcases struct_complete n hFits hReads with
        ⟨v, mid, y, hPub, hNext, hParse, hSame⟩
      refine ⟨.struct y, ?_, ?_⟩
      · exact definitionOf_eq_done.mpr
          ⟨v, mid, hPub,
            .inr (.inr (.inr (.inr (.inl
              ⟨hNext, y, hParse, rfl⟩))))⟩
      · rw [Definition.mapSpans, Definition.mapSpans, hSame]
  | constant c =>
      rw [Definition.spellings] at hReads
      rcases constant_complete n hFits hReads with
        ⟨v, mid, y, hPub, hNext, hParse, hSame⟩
      refine ⟨.constant y, ?_, ?_⟩
      · exact definitionOf_eq_done.mpr
          ⟨v, mid, hPub,
            .inr (.inr (.inr (.inr (.inr (.inl
              ⟨hNext, y, hParse, rfl⟩)))))⟩
      · rw [Definition.mapSpans, Definition.mapSpans, hSame]
  | typeAlias a =>
      rw [Definition.spellings] at hReads
      rcases typeAlias_complete n hFits hReads with
        ⟨v, mid, y, hPub, hNext, hParse, hSame⟩
      refine ⟨.typeAlias y, ?_, ?_⟩
      · exact definitionOf_eq_done.mpr
          ⟨v, mid, hPub,
            .inr (.inr (.inr (.inr (.inr (.inr
              ⟨hNext, y, hParse, rfl⟩)))))⟩
      · rw [Definition.mapSpans, Definition.mapSpans, hSame]

end Definitions

/-
  Definitions are read back at every level that they fit
  into.
-/
theorem definition_complete
    (n : Nat) :
    (definition n).Complete Definition.spellings
      (Definition.Fits n) EndsAlways
      (Definition.mapSpans .forget) := by
  induction n with
  | zero =>
      intro x ts rest hFits
      exact absurd hFits x.not_fits_zero
  | succ n ih => exact definitionOf_complete ih

/- The definitions of a whole file are read back. -/
theorem definitions_complete
    {ds : List Definition}
    (hFits : ∀ d ∈ ds, d.Fits n)
    (hReads :
      Reads ts (ds.map Definition.spellings).prod []) :
    ∃ ys, definitions n ts = .done ys [] ∧
      ys.map (Definition.mapSpans .forget) =
        ds.map (Definition.mapSpans .forget) := by
  have hStep :
      ∀ {ts mid} {d : Definition}, d.Fits n →
        Reads ts d.spellings mid →
        EndsAlways (nextKind mid) →
        ∃ y, definitionStep n ts = .done (.inl y) mid ∧
          y.mapSpans .forget = d.mapSpans .forget := by
    intro ts mid d hFits hReads hNext
    rcases definition_complete n hFits hReads hNext with
      ⟨y, hParse, hSame⟩
    have hMore := hReads.ne_nil d.startsWith
    exact
      ⟨y,
        definitionStep_eq_done.mpr
          (.inl ⟨hMore, y, hParse, rfl⟩),
        hSame⟩
  have hLast :
      ∀ {ts}, Reads ts 1 [] →
        EndsAlways (nextKind ts) ∧
        ∃ b, definitionStep n ts = .done (.inr b) [] ∧
          True := by
    intro ts hReads
    have hEnd : ts = [] := reads_one_iff.mp hReads
    subst hEnd
    exact
      ⟨trivial, (),
        definitionStep_eq_done.mpr (.inr ⟨rfl, rfl, rfl⟩),
        trivial⟩
  rw [← mul_one
    (ds.map Definition.spellings).prod] at hReads
  rcases exists_steps hStep hLast (fun d _ => d.startsWith)
      (fun _ _ => trivial) hFits hReads with
    ⟨ys, _, hSteps, hLength, hSame, -⟩
  exact
    ⟨ys, definitions_eq_done.mpr ⟨hLength, hSteps⟩, hSame⟩

end Parser

end FeSyntax
