import FeSyntax.Proofs.Parsing.SoundExpression
import FeSyntax.Proofs.Syntax.FitsDefinition

/-
  This file proves that the parsers of definitions are
  sound: with some number of levels they give only
  definitions that fit into these levels, and they read a
  spelling of the definition.

  Key theorems include:
    * `Parser.function_sound`
    * `Parser.functionList_sound`
    * `Parser.definition_sound`
    * `Parser.definitions_sound`
-/

namespace FeSyntax

namespace Parser

variable {n : Nat}
variable {start ts rest : List Token}

------------------------------------------------------------
-- Parameters And Fields
------------------------------------------------------------

/- A parameter has been read with its type. -/
theorem param_sound
    (n : Nat) :
    (param n).Sound Param.spellings
      (fun p => p.ty.Fits n) := by
  intro ts rest p hLexed hParse
  simp only [param, bind_eq_done, pure_eq_done] at hParse
  rcases hParse with
    ⟨name, ts₁, hName, colon, ts₂, hColon, t, _, hTy, rfl,
     rfl⟩
  rcases identifier_sound hLexed hName with ⟨hReadsName, -⟩
  have hLead := hReadsName.mul (reads_of_punct hColon)
  rcases ty_sound n (hLead.lexed hLexed) hTy with
    ⟨hReadsTy, hFits⟩
  exact ⟨hLead.mul hReadsTy, hFits⟩

/-
  A field has been read; without `pub`, its name is another
  word.
-/
theorem field_sound
    (n : Nat) :
    (field n).Sound Field.spellings (Field.Fits n) := by
  intro ts rest f hLexed hParse
  simp only [field, bind_eq_done, pure_eq_done] at hParse
  rcases hParse with
    ⟨v, ts₁, hPub, name, ts₂, hName, colon, ts₃, hColon, t,
     _, hTy, rfl, rfl⟩
  rcases reads_of_keyword? hPub with ⟨hReadsPub, hNext⟩
  rcases identifier_sound (hReadsPub.lexed hLexed) hName
    with ⟨hReadsName, -⟩
  have hLead :=
    (hReadsPub.mul hReadsName).mul (reads_of_punct hColon)
  rcases ty_sound n (hLead.lexed hLexed) hTy with
    ⟨hReadsTy, hFits⟩
  refine
    ⟨hLead.mul hReadsTy, Field.fits_iff.mpr ⟨?_, hFits⟩⟩
  intro hNotPub
  rw [ne_eq, ← Identifier.nextKind_keyword_iff hReadsName]
  exact hNext hNotPub

------------------------------------------------------------
-- Functions
------------------------------------------------------------

section Visible

variable {v : Option Span}
variable
  (hVisibility :
    Reads start (Spelling.visibility v.isSome) ts)
  (hLexed : Lexed start)

include hVisibility hLexed

/-
  The optional `pub` has been read before.  A keyword and a
  name follow in every definition that can be public.
-/
theorem reads_of_visibleName
    {k : Keyword}
    {kw : Span}
    {name : Identifier}
    {mid : List Token}
    (hKeyword : keyword k ts = .done kw mid)
    (hName : identifier mid = .done name rest) :
    Reads start
      (Spelling.visibility v.isSome * k.written *
        name.spellings)
      rest := by
  have hLead := hVisibility.mul (reads_of_keyword hKeyword)
  rcases identifier_sound (hLead.lexed hLexed) hName with
    ⟨hReadsName, -⟩
  exact hLead.mul hReadsName

/-
  A function has been read together with the `pub` in front.
-/
theorem function_sound
    {f : Function}
    (hParse : function n v ts = .done f rest) :
    Reads start f.spellings rest ∧ f.Fits n := by
  simp only [function, bind_eq_done, pure_eq_done,
    Prod.exists] at hParse
  rcases hParse with
    ⟨fn, ts₁, hFn, name, ts₂, hName, names, ts₃, hNames,
     openParen, ts₄, hOpen, params, close, ts₅, hParams,
     returnType, ts₆, hReturn, body, _, hBody, rfl, rfl⟩
  have hNamed :=
    reads_of_visibleName hVisibility hLexed hFn hName
  have hTyped :=
    hNamed.mul
      (typeParams_sound (hNamed.lexed hLexed) hNames).1
  have hOpened := hTyped.mul (reads_of_punct hOpen)
  rcases commaList_sound (param_sound n)
      (hOpened.lexed hLexed) hParams with
    ⟨hReadsParams, hFitsParams⟩
  have hHead := hOpened.mul hReadsParams
  rcases reads_of_whenAt (ty_sound n) (hHead.lexed hLexed)
      hReturn with
    ⟨hReadsReturn, hFitsReturn⟩
  have hSignature := hHead.mul hReadsReturn
  rcases block_sound n (hSignature.lexed hLexed) hBody with
    ⟨hReadsBody, hFitsBody⟩
  refine
    ⟨?_,
      Function.fits_iff.mpr
        ⟨hFitsParams, hFitsReturn, hFitsBody⟩⟩
  rw [← mul_assoc] at hSignature
  exact hSignature.mul hReadsBody

end Visible

/- A member function has been read, and takes a level. -/
theorem memberFunction_sound
    (n : Nat) :
    (memberFunction n).Sound Function.spellings
      (Function.FitsAsMember n) := by
  intro ts rest f hLexed hParse
  simp only [memberFunction, bind_eq_done,
    isAt_eq_done] at hParse
  rcases hParse with
    ⟨v, mid, hPub, _, _, ⟨rfl, rfl⟩, hParse⟩
  by_cases hFn : nextKind mid = some (.keyword .fnKw)
  · rw [if_pos (by simpa using hFn)] at hParse
    cases n with
    | zero => exact absurd hParse fail_ne_done
    | succ n =>
        rcases function_sound (reads_of_keyword? hPub).1
            hLexed hParse with
          ⟨hReads, hFits⟩
        exact
          ⟨hReads, Function.fitsAsMember_succ.mpr hFits⟩
  · rw [if_neg (by simpa using hFn)] at hParse
    exact absurd hParse fail_ne_done

/-
  The functions between braces have been read with the
  braces.
-/
theorem functionList_sound
    (n : Nat) :
    (functionList n).Sound
      (fun parts => Function.listSpellings parts.1)
      (fun parts => ∀ f ∈ parts.1, f.FitsAsMember n) := by
  intro ts rest parts hLexed hParse
  simp only [functionList, bind_eq_done] at hParse
  rcases hParse with ⟨brace, mid, hBrace, hFunctions⟩
  have hOpen := reads_of_punct hBrace
  rcases itemsUntil_sound (memberFunction_sound n)
      (hOpen.lexed hLexed) hFunctions with
    ⟨hReads, hFits⟩
  refine ⟨?_, hFits⟩
  simp only [Function.listSpellings, mul_assoc]
  exact hOpen.mul hReads

------------------------------------------------------------
-- Structs, Constants, Type Aliases And Traits
------------------------------------------------------------

/-
  The body of a struct has been read, with its braces or its
  semicolon.
-/
theorem structBody_sound
    (n : Nat) :
    (structBody n).Sound
      (fun body => Struct.bodySpellings body.1)
      (fun body =>
        ∀ fields ∈ body.1, ∀ f ∈ fields, f.Fits n) := by
  intro ts rest body hLexed hParse
  rcases structBody_eq_done.mp hParse with
    ⟨stop, hStop, rfl⟩ |
    ⟨brace, mid, hBrace, fields, stop, hFields, rfl⟩
  · exact ⟨reads_of_punct hStop, by rintro _ ⟨⟩⟩
  · have hOpen := reads_of_punct hBrace
    rcases commaList_sound (field_sound n)
        (hOpen.lexed hLexed) hFields with
      ⟨hReads, hFits⟩
    refine ⟨?_, by rintro _ ⟨⟩; exact hFits⟩
    simp only [Struct.bodySpellings, mul_assoc]
    exact hOpen.mul hReads

section Visible

variable {v : Option Span}
variable
  (hVisibility :
    Reads start (Spelling.visibility v.isSome) ts)
  (hLexed : Lexed start)

include hVisibility hLexed

/-
  A struct has been read together with the `pub` in front.
-/
theorem struct_sound
    {s : Struct}
    (hParse : struct n v ts = .done s rest) :
    Reads start s.spellings rest ∧ s.Fits n := by
  simp only [struct, bind_eq_done, pure_eq_done,
    Prod.exists] at hParse
  rcases hParse with
    ⟨kw, ts₁, hKeyword, name, ts₂, hName, names, ts₃,
     hNames, fields, stop, _, hBody, rfl, rfl⟩
  have hNamed :=
    reads_of_visibleName hVisibility hLexed hKeyword hName
  have hTyped :=
    hNamed.mul
      (typeParams_sound (hNamed.lexed hLexed) hNames).1
  rcases structBody_sound n (hTyped.lexed hLexed) hBody with
    ⟨hReads, hFits⟩
  exact ⟨hTyped.mul hReads, Struct.fits_iff.mpr hFits⟩

theorem constant_sound
    {c : Constant}
    (hParse : constant n v ts = .done c rest) :
    Reads start c.spellings rest ∧ c.Fits n := by
  simp only [constant, bind_eq_done, pure_eq_done] at hParse
  rcases hParse with
    ⟨kw, ts₁, hKeyword, name, ts₂, hName, colon, ts₃,
     hColon, t, ts₄, hTy, equals, ts₅, hEquals, value, ts₆,
     hValue, stop, _, hStop, rfl, rfl⟩
  have hNamed :=
    reads_of_visibleName hVisibility hLexed hKeyword hName
  have hColoned := hNamed.mul (reads_of_punct hColon)
  rcases ty_sound n (hColoned.lexed hLexed) hTy with
    ⟨hReadsTy, hFitsTy⟩
  have hTyped :=
    (hColoned.mul hReadsTy).mul (reads_of_punct hEquals)
  rcases expression_sound n (hTyped.lexed hLexed) hValue
    with ⟨hReadsValue, hFitsValue⟩
  exact
    ⟨(hTyped.mul hReadsValue).mul (reads_of_punct hStop),
      Constant.fits_iff.mpr ⟨hFitsTy, hFitsValue⟩⟩

theorem typeAlias_sound
    {a : TypeAlias}
    (hParse : typeAlias n v ts = .done a rest) :
    Reads start a.spellings rest ∧ a.ty.Fits n := by
  simp only [typeAlias, bind_eq_done,
    pure_eq_done] at hParse
  rcases hParse with
    ⟨kw, ts₁, hKeyword, name, ts₂, hName, names, ts₃,
     hNames, equals, ts₄, hEquals, t, ts₅, hTy, stop, _,
     hStop, rfl, rfl⟩
  have hNamed :=
    reads_of_visibleName hVisibility hLexed hKeyword hName
  have hTyped :=
    (hNamed.mul
      (typeParams_sound (hNamed.lexed hLexed) hNames).1).mul
      (reads_of_punct hEquals)
  rcases ty_sound n (hTyped.lexed hLexed) hTy with
    ⟨hReadsTy, hFits⟩
  have hReads := hTyped.mul hReadsTy
  exact ⟨hReads.mul (reads_of_punct hStop), hFits⟩

theorem trait_sound
    {t : Trait}
    (hParse : trait n v ts = .done t rest) :
    Reads start t.spellings rest ∧ t.Fits n := by
  simp only [trait, bind_eq_done, pure_eq_done,
    Prod.exists] at hParse
  rcases hParse with
    ⟨kw, ts₁, hKeyword, name, ts₂, hName, names, ts₃,
     hNames, functions, stop, _, hFunctions, rfl, rfl⟩
  have hNamed :=
    reads_of_visibleName hVisibility hLexed hKeyword hName
  have hTyped :=
    hNamed.mul
      (typeParams_sound (hNamed.lexed hLexed) hNames).1
  rcases functionList_sound n (hTyped.lexed hLexed)
      hFunctions with
    ⟨hReads, hFits⟩
  exact ⟨hTyped.mul hReads, Trait.fits_iff.mpr hFits⟩

end Visible

------------------------------------------------------------
-- Impls And Modules
------------------------------------------------------------

/- An implementation has been read, of a trait or not. -/
theorem impl_sound
    (n : Nat) :
    (impl n).Sound Impl.spellings (Impl.Fits n) := by
  intro ts rest i hLexed hParse
  simp only [impl, bind_eq_done, pure_eq_done,
    Prod.exists] at hParse
  rcases hParse with
    ⟨kw, ts₁, hKeyword, t, ts₂, hTy, traitTy, ts₃, hTrait,
     functions, stop, _, hFunctions, rfl, rfl⟩
  have hLead := reads_of_keyword hKeyword
  rcases ty_sound n (hLead.lexed hLexed) hTy with
    ⟨hReadsTy, hFitsTy⟩
  have hTyped := hLead.mul hReadsTy
  rcases reads_of_whenAt (ty_sound n) (hTyped.lexed hLexed)
      hTrait with
    ⟨hReadsTrait, hFitsTrait⟩
  have hHead := hTyped.mul hReadsTrait
  rcases functionList_sound n (hHead.lexed hLexed)
      hFunctions with
    ⟨hReads, hFits⟩
  exact
    ⟨hHead.mul hReads,
      Impl.fits_iff.mpr ⟨hFitsTy, hFitsTrait, hFits⟩⟩

/-
  A module has been read up to its brace, if its definitions
  have.
-/
theorem moduleOf_sound
    {inner : Parser Definition}
    (hInner :
      inner.Sound Definition.spellings
        (Definition.Fits n)) :
    (moduleOf inner).Sound Module.spellings
      (Module.Fits n) := by
  intro ts rest m hLexed hParse
  simp only [moduleOf, bind_eq_done, pure_eq_done,
    Prod.exists] at hParse
  rcases hParse with
    ⟨kw, ts₁, hKeyword, name, ts₂, hName, brace, ts₃,
     hBrace, definitions, stop, _, hDefinitions, rfl, rfl⟩
  have hLead := reads_of_keyword hKeyword
  have hOpen :=
    (hLead.mul
      (identifier_sound (hLead.lexed hLexed) hName).1).mul
      (reads_of_punct hBrace)
  have hItem :
      (moduleItem inner).Sound Definition.spellings
        (Definition.Fits n) := by
    intro ts rest d hLexed hParse
    exact hInner hLexed (moduleItem_eq_done.mp hParse).2
  rcases itemsUntil_sound hItem (hOpen.lexed hLexed)
      hDefinitions with
    ⟨hReads, hFits⟩
  refine ⟨?_, Module.fits_mk.mpr hFits⟩
  rw [Module.spellings, Module.definitionSpellings_eq,
    mul_assoc]
  exact hOpen.mul hReads

------------------------------------------------------------
-- Definitions And Files
------------------------------------------------------------

/-
  Whichever form a definition has, it has been read together
  with its `pub`.
-/
theorem definitionOf_sound
    {inner : Parser Definition}
    (hInner :
      inner.Sound Definition.spellings
        (Definition.Fits n)) :
    (definitionOf n inner).Sound Definition.spellings
      (Definition.Fits (n + 1)) := by
  intro ts rest d hLexed hParse
  rcases definitionOf_eq_done.mp hParse with
    ⟨v, mid, hPub, hParse⟩
  rcases reads_of_keyword? hPub with ⟨hVisibility, -⟩
  rw [Definition.fits_succ]
  rcases hParse with
    ⟨rfl, -, m, hRun, rfl⟩ | ⟨rfl, -, i, hRun, rfl⟩ |
    ⟨-, f, hRun, rfl⟩ | ⟨-, t, hRun, rfl⟩ |
    ⟨-, s, hRun, rfl⟩ | ⟨-, c, hRun, rfl⟩ |
    ⟨-, a, hRun, rfl⟩
  · have hEnd : ts = mid := reads_one_iff.mp hVisibility
    subst hEnd
    rw [Definition.spellings]
    exact moduleOf_sound hInner hLexed hRun
  · have hEnd : ts = mid := reads_one_iff.mp hVisibility
    subst hEnd
    rw [Definition.spellings]
    exact impl_sound n hLexed hRun
  · rw [Definition.spellings]
    exact function_sound hVisibility hLexed hRun
  · rw [Definition.spellings]
    exact trait_sound hVisibility hLexed hRun
  · rw [Definition.spellings]
    exact struct_sound hVisibility hLexed hRun
  · rw [Definition.spellings]
    exact constant_sound hVisibility hLexed hRun
  · rw [Definition.spellings]
    exact typeAlias_sound hVisibility hLexed hRun

/- A definition fits into the levels it is given. -/
theorem definition_sound
    (n : Nat) :
    (definition n).Sound Definition.spellings
      (Definition.Fits n) := by
  induction n with
  | zero =>
      intro ts rest d hLexed hParse
      exact absurd hParse fail_ne_done
  | succ n ih => exact definitionOf_sound ih

/- A file is read to its end. -/
theorem definitions_sound
    {ds : List Definition}
    (hLexed : Lexed ts)
    (hParse : definitions n ts = .done ds rest) :
    Reads ts (ds.map Definition.spellings).prod rest ∧
      (∀ d ∈ ds, d.Fits n) ∧ rest = [] := by
  have hStep :
      (definitionStep n).Sound
        (Sum.elim Definition.spellings fun _ => 1)
        (Sum.elim (Definition.Fits n) fun _ => True) := by
    intro ts rest part hLexed hParse
    rcases definitionStep_eq_done.mp hParse with
      ⟨-, d, hRun, rfl⟩ | ⟨rfl, rfl, rfl⟩
    · exact definition_sound n hLexed hRun
    · exact ⟨.refl _, trivial⟩
  rcases definitions_eq_done.mp hParse with ⟨-, hSteps⟩
  rcases hSteps.reads hStep hLexed with ⟨hReads, hFits, -⟩
  rw [mul_one] at hReads
  exact ⟨hReads, hFits, rest_of_definitions hParse⟩

end Parser

end FeSyntax
