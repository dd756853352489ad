import FeSyntax.Proofs.Parsing.CompleteExpression
import FeSyntax.Proofs.Syntax.FitsDefinition

/-
  This file proves that the parsers of functions and fields
  are complete.  A function is read by a parser that is told
  whether a `pub` has been passed before, and so are the
  other definitions that can be public.

  Key definitions include:
    * `Parser.CompleteVisible`

  Key theorems include:
    * `Parser.field_complete`
    * `Parser.visibleName_complete`
    * `Parser.function_complete`
    * `Parser.functionList_complete`
-/

namespace FeSyntax

namespace Parser

variable {α γ : Type}
variable {n : Nat}
variable {ts rest : List Token}

------------------------------------------------------------
-- Parameters And Fields
------------------------------------------------------------

/-
  A parameter is read back, if what follows does not go on
  with its type.
-/
theorem param_complete
    (n : Nat) :
    (param n).Complete Param.spellings
      (fun p => p.ty.Fits n) EndsPath
      (Param.mapSpans .forget) := by
  intro x ts rest hFits hReads hNext
  simp only [Param.spellings, mul_assoc,
    reads_mul_iff] at hReads
  rcases hReads with
    ⟨ts₁, hReadsName, ts₂, hReadsColon, hReadsTy⟩
  rcases identifier_complete trivial hReadsName trivial with
    ⟨name, hName, hSameName⟩
  rcases punct_complete hReadsColon with ⟨colon, hColon⟩
  rcases ty_complete n hFits hReadsTy hNext with
    ⟨t, hTy, hSameTy⟩
  refine ⟨⟨name, t, name.span.through t.span⟩, ?_, ?_⟩
  · simp only [param, bind_eq_done, pure_eq_done]
    exact
      ⟨name, ts₁, hName, colon, ts₂, hColon, t, rest, hTy,
        rfl, rfl⟩
  · simp only [Param.mapSpans, hSameName, hSameTy]
    rfl

/-
  A field is read back, with `pub` or without, by the same
  condition.
-/
theorem field_complete
    (n : Nat) :
    (field n).Complete Field.spellings (Field.Fits n)
      EndsPath (Field.mapSpans .forget) := by
  intro x ts rest hFits hReads hNext
  rcases x with ⟨isPub, name, ty, span⟩
  rcases Field.fits_iff.mp hFits with ⟨hPub, hFitsTy⟩
  simp only [Field.spellings, mul_assoc,
    reads_mul_iff] at hReads
  rcases hReads with
    ⟨ts₁, hReadsPub, ts₂, hReadsName, ts₃, hReadsColon,
     hReadsTy⟩
  have hNextName :
      isPub = false →
        nextKind ts₁ ≠ some (.keyword .pubKw) := by
    rw [ne_eq, Identifier.nextKind_keyword_iff hReadsName]
    exact hPub
  rcases keyword?_complete hReadsPub hNextName with
    ⟨v, hParsePub, rfl⟩
  rcases identifier_complete trivial hReadsName trivial with
    ⟨name', hName, hSameName⟩
  rcases punct_complete hReadsColon with ⟨colon, hColon⟩
  rcases ty_complete n hFitsTy hReadsTy hNext with
    ⟨t, hTy, hSameTy⟩
  let start := v.getD name'.span
  refine
    ⟨⟨v.isSome, name', t, start.through t.span⟩, ?_, ?_⟩
  · simp only [field, bind_eq_done, pure_eq_done]
    exact
      ⟨v, ts₁, hParsePub, name', ts₂, hName, colon, ts₃,
        hColon, t, rest, hTy, rfl, rfl⟩
  · simp only [Field.mapSpans, hSameName, hSameTy]
    rfl

------------------------------------------------------------
-- Optional Visibility
------------------------------------------------------------

/-
  Wherever a spelling of a good value is read, an optional
  `pub` is passed first.  Then the keyword `k` comes next,
  and the parser `p`, which is told of the `pub`, is done
  with a value of the same view.
-/
def CompleteVisible
    (k : Keyword)
    (p : Option Span → Parser α)
    (spellings : α → Language TokenKind)
    (good : α → Prop)
    (view : α → γ) : Prop :=
  ∀ ⦃x : α⦄ ⦃ts rest : List Token⦄,
    good x →
    Reads ts (spellings x) rest →
    ∃ v mid y, keyword? .pubKw ts = .done v mid ∧
      nextKind mid = some (.keyword k) ∧
      p v mid = .done y rest ∧
      view y = view x

/-
  An optional `pub`, a keyword and a name, which begin every
  definition that can be public.
-/
theorem visibleName_complete
    {isPub : Bool}
    {k : Keyword}
    {name : Identifier}
    {l : Language TokenKind}
    (hOther : k ≠ .pubKw)
    (hReads :
      Reads ts
        (Spelling.visibility isPub *
          (k.written * (name.spellings * l)))
        rest) :
    ∃ v mid kw ts₁ name' ts₂,
      keyword? .pubKw ts = .done v mid ∧
      v.isSome = isPub ∧
      nextKind mid = some (.keyword k) ∧
      keyword k mid = .done kw ts₁ ∧
      identifier ts₁ = .done name' ts₂ ∧
      name'.mapSpans .forget = name.mapSpans .forget ∧
      Reads ts₂ l rest := by
  rcases reads_mul_iff.mp hReads with
    ⟨mid, hReadsPub, hReads⟩
  have hNext : nextKind mid = some (.keyword k) :=
    hReads.nextKind_eq
  have hNotPub : nextKind mid ≠ some (.keyword .pubKw) := by
    rw [hNext]
    simpa using hOther
  rcases keyword?_complete hReadsPub fun _ => hNotPub with
    ⟨v, hPub, hIsPub⟩
  rcases reads_mul_iff.mp hReads with
    ⟨ts₁, hReadsKeyword, hReads⟩
  rcases reads_mul_iff.mp hReads with
    ⟨ts₂, hReadsName, hReads⟩
  rcases keyword_complete hReadsKeyword with ⟨kw, hKeyword⟩
  rcases identifier_complete trivial hReadsName trivial with
    ⟨name', hName, hSameName⟩
  exact
    ⟨v, mid, kw, ts₁, name', ts₂, hPub, hIsPub, hNext,
      hKeyword, hName, hSameName, hReads⟩

------------------------------------------------------------
-- Functions
------------------------------------------------------------

/-
  A function is read back, with `pub` in front or without.
-/
theorem function_complete
    (n : Nat) :
    CompleteVisible .fnKw (function n) Function.spellings
      (Function.Fits n) (Function.mapSpans .forget) := by
  intro x ts rest hFits hReads
  rcases x with
    ⟨isPub, name, typeParams, params, returnType, body,
     span⟩
  rcases Function.fits_iff.mp hFits with
    ⟨hFitsParams, hFitsReturn, hFitsBody⟩
  simp only [Function.spellings, mul_assoc] at hReads
  rcases visibleName_complete (by decide) hReads with
    ⟨v, mid, fn, ts₁, name', ts₂, hPub, rfl, hNext, hFn,
     hName, hSameName, hReads⟩
  rcases reads_mul_iff.mp hReads with
    ⟨ts₃, hReadsNames, hReads⟩
  rcases reads_mul_iff.mp hReads with
    ⟨ts₄, hReadsOpen, hReads⟩
  rw [← mul_assoc] at hReads
  rcases reads_mul_iff.mp hReads with
    ⟨ts₅, hReadsParams, hReads⟩
  rcases reads_mul_iff.mp hReads with
    ⟨ts₆, hReadsReturn, hReadsBody⟩
  rcases punct_complete hReadsOpen with ⟨openParen, hOpen⟩
  have hNotAngle :
      nextKind ts₃ ≠ some (.punct .leftAngle) := by
    rw [nextKind_of_punct hOpen]
    simp
  rcases typeParams_complete trivial hReadsNames hNotAngle
    with ⟨names, hNames, hSameNames⟩
  have hParam :
      ∀ p : Param, p.ty.Fits n →
        StartsWith (· ≠ .punct .rightParen) p.spellings :=
    fun p _ => p.startsWith.mono fun _ hKind => hKind _
  rcases commaList_complete (param_complete n)
      (by simp [EndsPath]) (by simp [EndsPath]) (by simp)
      hParam (x := (params, span)) hFitsParams hReadsParams
      trivial with
    ⟨⟨params', close⟩, hParams, hSameParams⟩
  have hBrace := Block.nextKind hReadsBody
  rcases whenAt_complete (ty_complete n) hFitsReturn
      hReadsReturn (by rw [hBrace]; simp [EndsPath])
      (by rw [hBrace]; simp) with
    ⟨returnType', hReturn, hSameReturn⟩
  rcases block_complete n hFitsBody hReadsBody trivial with
    ⟨body', hBody, hSameBody⟩
  refine
    ⟨v, mid,
      { isPub := v.isSome
        name := name'
        typeParams := names
        params := params'
        returnType := returnType'
        body := body'
        span := (v.getD fn).through body'.span },
      hPub, hNext, ?_, ?_⟩
  · simp only [function, bind_eq_done, pure_eq_done,
      Prod.exists]
    exact
      ⟨fn, ts₁, hFn, name', ts₂, hName, names, ts₃, hNames,
        openParen, ts₄, hOpen, params', close, ts₅, hParams,
        returnType', ts₆, hReturn, body', rest, hBody, rfl,
        rfl⟩
  · simp only at hSameParams
    simp only [Function.mapSpans, hSameName, hSameNames,
      hSameParams, hSameReturn, hSameBody]
    rfl

/- A function of a trait or impl takes a level. -/
theorem memberFunction_complete
    (n : Nat) :
    (memberFunction n).Complete Function.spellings
      (Function.FitsAsMember n) EndsAlways
      (Function.mapSpans .forget) := by
  intro x ts rest hFits hReads _
  cases n with
  | zero => exact absurd hFits x.not_fitsAsMember_zero
  | succ n =>
      rcases function_complete n
          (Function.fitsAsMember_succ.mp hFits) hReads with
        ⟨v, mid, y, hPub, hNext, hParse, hSame⟩
      refine ⟨y, ?_, hSame⟩
      simp only [memberFunction, bind_eq_done, isAt_eq_done]
      refine
        ⟨v, mid, hPub, true, mid, ⟨by simp [hNext], rfl⟩,
          ?_⟩
      rw [if_pos rfl]
      exact hParse

/- The functions of a list stand between braces. -/
theorem functionList_nextKind
    {fs : List Function}
    (hReads :
      Reads ts (Function.listSpellings fs) rest) :
    nextKind ts = some (.punct .leftBrace) := by
  simp only [Function.listSpellings, mul_assoc] at hReads
  exact hReads.nextKind_eq

/- They are read back one by one up to the closing brace. -/
theorem functionList_complete
    (n : Nat) :
    (functionList n).Complete
      (fun parts => Function.listSpellings parts.1)
      (fun parts => ∀ f ∈ parts.1, f.FitsAsMember n)
      EndsAlways
      (fun parts =>
        parts.1.map (Function.mapSpans .forget)) := by
  intro x ts rest hFits hReads _
  rcases x with ⟨fs, span⟩
  simp only [Function.listSpellings, mul_assoc] at hReads
  rcases reads_mul_iff.mp hReads with ⟨mid, hOpen, hReads⟩
  rcases punct_complete hOpen with ⟨brace, hBrace⟩
  rcases itemsUntil_complete (memberFunction_complete n)
      (fun f _ => f.startsWith)
      (fun hKind => hKind .rightBrace rfl)
      (fun _ _ => trivial) trivial (x := (fs, span)) hFits
      hReads trivial with
    ⟨parts, hParse, hSame⟩
  refine ⟨parts, ?_, hSame⟩
  simp only [functionList, bind_eq_done]
  exact ⟨brace, mid, hBrace, hParse⟩

end Parser

end FeSyntax
