import FeSyntax.Proofs.Parsing.Complete
import FeSyntax.Proofs.Parsing.Dispatch
import FeSyntax.Proofs.Syntax.Fits

/-
  This file proves that the parsers of types and patterns
  are complete: every tree that fits into some levels is
  read back from each of its spellings with these levels.
  What comes next must not make a path longer.

  Key definitions include:
    * `EndsPath`
    * `EndsPattern`

  Key theorems include:
    * `Parser.ty_complete`
    * `Parser.pattern_complete`
-/

namespace FeSyntax

/- What comes next does not make a path longer. -/
def EndsPath
    (next : Option TokenKind) : Prop :=
  next ≠ some (.punct .colonColon)

/-
  What comes next does not make a path longer, and does not
  make a tuple pattern of a name.
-/
def EndsPattern
    (next : Option TokenKind) : Prop :=
  EndsPath next ∧ next ≠ some (.punct .leftParen)

/- A mark that is read ends a path, unless it is `::`. -/
theorem EndsPath.of_punct
    {ts rest : List Token}
    {mark : Punct}
    {span : Span}
    (hMark : Parser.punct mark ts = .done span rest)
    (hOther : mark ≠ .colonColon) :
    EndsPath (nextKind ts) := by
  unfold EndsPath
  rw [Parser.nextKind_of_punct hMark]
  simpa using hOther

namespace Parser

variable {n : Nat}
variable {ts rest : List Token}

------------------------------------------------------------
-- Types
------------------------------------------------------------

section Types

variable {inner : Parser Ty}
variable
  (hInner :
    inner.Complete Ty.spellings (Ty.Fits n) EndsPath
      (Ty.mapSpans .forget))

include hInner

/-
  A reference is read back, since its type is not taken for
  a `mut`.
-/
theorem referenceTy_complete
    {isMut : Bool}
    {x : Ty}
    {span : Span}
    (hFits : (Ty.reference isMut x span).Fits (n + 1))
    (hReads :
      Reads ts (Ty.reference isMut x span).spellings rest)
    (hNext : EndsPath (nextKind rest)) :
    ∃ y, referenceTy inner ts = .done y rest ∧
      y.mapSpans .forget =
        (Ty.reference isMut x span).mapSpans .forget := by
  rcases Ty.fits_reference.mp hFits with ⟨hMut, hFitsInner⟩
  simp only [Ty.spellings, mul_assoc,
    reads_mul_iff] at hReads
  rcases hReads with
    ⟨ts₁, hAmpersand, ts₂, hReadsMut, hReads⟩
  rcases punct_complete hAmpersand with ⟨start, hStart⟩
  have hNextInner :
      isMut = false →
        nextKind ts₂ ≠ some (.keyword .mutKw) := by
    rw [ne_eq, ← Ty.beginsWith_iff hReads hFitsInner.1]
    exact hMut
  rcases keyword?_complete hReadsMut hNextInner with
    ⟨o, hParseMut, rfl⟩
  rcases hInner hFitsInner hReads hNext with
    ⟨y, hParse, hSame⟩
  refine
    ⟨.reference o.isSome y (start.through y.span), ?_, ?_⟩
  · simp only [referenceTy, bind_eq_done, pure_eq_done]
    exact
      ⟨start, ts₁, hStart, o, ts₂, hParseMut, y, rest,
        hParse, rfl, rfl⟩
  · rw [Ty.mapSpans, Ty.mapSpans, hSame]
    rfl

theorem tupleTy_complete
    {xs : List Ty}
    {span : Span}
    (hFits : (Ty.tuple xs span).Fits (n + 1))
    (hReads : Reads ts (Ty.tuple xs span).spellings rest) :
    ∃ y, tupleTy inner ts = .done y rest ∧
      y.mapSpans .forget =
        (Ty.tuple xs span).mapSpans .forget := by
  simp only [Ty.spellings, Ty.spellingsAll_eq,
    mul_assoc] at hReads
  rcases reads_mul_iff.mp hReads with ⟨ts₁, hOpen, hReads⟩
  rcases punct_complete hOpen with ⟨start, hStart⟩
  rcases commaList_complete hInner (by simp [EndsPath])
      (by simp [EndsPath]) (by simp)
      (fun t hFits => Ty.startsWith hFits.1)
      (x := (xs, span)) (Ty.fits_tuple.mp hFits) hReads
      trivial with
    ⟨⟨ys, stop⟩, hParse, hSame⟩
  refine ⟨.tuple ys (start.through stop), ?_, ?_⟩
  · simp only [tupleTy, bind_eq_done, pure_eq_done,
      Prod.exists]
    exact
      ⟨start, ts₁, hStart, ys, stop, rest, hParse, rfl, rfl⟩
  · simp only [Ty.mapSpans, Ty.mapSpansAll_eq]
    exact congrArg (Ty.tuple · _) hSame

/-
  Whichever form a type has, its first token leads to that
  form.
-/
theorem tyOf_complete :
    (tyOf inner).Complete Ty.spellings (Ty.Fits (n + 1))
      EndsPath (Ty.mapSpans .forget) := by
  intro x ts rest hFits hReads hNext
  cases x with
  | path p =>
      have hPath := Ty.fits_path.mp hFits
      have hSegments := hPath.segments_ne_nil
      rw [Ty.spellings] at hReads
      rcases path_complete hSegments hReads hNext with
        ⟨y, hParse, hSame⟩
      rcases Path.exists_word hReads hSegments with
        ⟨kind, hKind, hWord⟩
      rw [Path.isTypePath_iff hReads hSegments,
        hKind] at hPath
      have hNotPrimitive :
          ∀ primitive, kind ≠ .primitive primitive := by
        intro primitive hSame
        exact hPath primitive (congrArg some hSame)
      refine ⟨.path y, ?_, ?_⟩
      · exact tyOf_eq_done.mpr
          (.inr (.inr (.inr
            ⟨kind, hKind, hNotPrimitive, hWord, y, hParse,
              rfl⟩)))
      · rw [Ty.mapSpans, Ty.mapSpans, hSame]
  | reference isMut inner span =>
      have hLead := hReads
      rw [Ty.spellings, mul_assoc] at hLead
      rcases referenceTy_complete hInner hFits hReads hNext
        with ⟨y, hParse, hSame⟩
      exact
        ⟨y,
          tyOf_eq_done.mpr
            (.inr (.inl ⟨hLead.nextKind_eq, hParse⟩)),
          hSame⟩
  | tuple elements span =>
      have hLead := hReads
      rw [Ty.spellings, mul_assoc] at hLead
      rcases tupleTy_complete hInner hFits hReads with
        ⟨y, hParse, hSame⟩
      exact
        ⟨y,
          tyOf_eq_done.mpr
            (.inr (.inr (.inl
              ⟨hLead.nextKind_eq, hParse⟩))),
          hSame⟩
  | primitive kind span =>
      rw [Ty.spellings] at hReads
      rcases reads_written_iff.mp hReads with
        ⟨t, rfl, hKind⟩
      refine ⟨.primitive kind t.span, ?_, rfl⟩
      refine tyOf_eq_done.mpr
        (.inl ⟨kind, by rw [nextKind_cons, hKind], ?_⟩)
      simp only [primitiveTy, bind_eq_done, pure_eq_done,
        Prod.exists, accept_eq_done]
      exact
        ⟨kind, t.span, rest,
          ⟨t, rfl, by rw [hKind]; rfl, rfl⟩, rfl, rfl⟩

end Types

/- Types are read back at every level that they fit into. -/
theorem ty_complete
    (n : Nat) :
    (ty n).Complete Ty.spellings (Ty.Fits n) EndsPath
      (Ty.mapSpans .forget) := by
  induction n with
  | zero =>
      intro x ts rest hFits
      exact absurd hFits x.not_fits_zero
  | succ n ih => exact tyOf_complete ih

------------------------------------------------------------
-- Patterns
------------------------------------------------------------

section Patterns

variable {inner : Parser Pattern}

/- A path that may begin a pattern leads to a named one. -/
theorem patternOf_of_path
    {p : Path}
    {mid : List Token}
    {y : Pattern}
    (hPath : p.IsPatternPath)
    (hReads : Reads ts p.spellings mid)
    (hParse : namedPattern inner ts = .done y rest) :
    patternOf inner ts = .done y rest := by
  have hSegments := hPath.segments_ne_nil
  rcases hReads.exists_nextKind (Path.startsWith hSegments)
    with ⟨kind, hKind, word, -, rfl⟩
  rw [Path.isPatternPath_iff hReads hSegments,
    hKind] at hPath
  rcases hPath with ⟨hBool, hWildcard⟩
  refine patternOf_eq_done.mpr
    (.inr (.inr ⟨_, hKind, ?_, ?_, by simp, hParse⟩))
  · exact fun hSame => hWildcard (congrArg some hSame)
  · intro hLiteral
    rcases TokenKind.exists_bool_of_literal? hLiteral with
      ⟨b, hSame⟩
    exact hBool b (congrArg some hSame)

/- A single name that is not followed by `::` or `(`. -/
theorem identifierPattern_complete
    {name : Identifier}
    (hFits : (Pattern.identifier name).Fits (n + 1))
    (hReads :
      Reads ts (Pattern.identifier name).spellings rest)
    (hNext : EndsPattern (nextKind rest)) :
    ∃ y, patternOf inner ts = .done y rest ∧
      y.mapSpans .forget =
        (Pattern.identifier name).mapSpans .forget := by
  have hPath := Pattern.fits_identifier.mp hFits
  have hReadsPath :
      Reads ts (Path.spellings ⟨[name], name.span⟩)
        rest := by
    rw [Pattern.spellings] at hReads
    simpa [Path.spellings, Spelling.separated] using hReads
  rcases path_complete hPath.segments_ne_nil hReadsPath
      hNext.1 with
    ⟨⟨segments, span⟩, hParse, hSame⟩
  -- The path that is read has one segment as well.
  simp only [Path.mapSpans, Path.mk.injEq,
    List.map_cons, List.map_nil,
    List.map_eq_singleton_iff] at hSame
  rcases hSame with ⟨⟨name', rfl, hSameName⟩, -⟩
  have hNamed :
      namedPattern inner ts =
        .done (.identifier name') rest :=
    namedPattern_eq_done.mpr
      ⟨_, rest, hParse,
        .inl ⟨hNext.2, rfl, name', rfl, rfl⟩⟩
  refine ⟨.identifier name', ?_, ?_⟩
  · exact patternOf_of_path hPath hReadsPath hNamed
  · rw [Pattern.mapSpans, Pattern.mapSpans, hSameName]

/-
  A pattern with parentheses is read back by its path and
  its elements.
-/
theorem tuplePattern_complete
    (hInner :
      inner.Complete Pattern.spellings (Pattern.Fits n)
        EndsPattern (Pattern.mapSpans .forget))
    {p : Path}
    {xs : List Pattern}
    {span : Span}
    (hFits : (Pattern.tupleStruct p xs span).Fits (n + 1))
    (hReads :
      Reads ts (Pattern.tupleStruct p xs span).spellings
        rest) :
    ∃ y, patternOf inner ts = .done y rest ∧
      y.mapSpans .forget =
        (Pattern.tupleStruct p xs span).mapSpans
          .forget := by
  rcases Pattern.fits_tupleStruct.mp hFits with
    ⟨hPath, hFitsAll⟩
  simp only [Pattern.spellings, Pattern.spellingsAll_eq,
    mul_assoc] at hReads
  rcases reads_mul_iff.mp hReads with
    ⟨ts₁, hReadsPath, hReads⟩
  rcases reads_mul_iff.mp hReads with ⟨ts₂, hOpen, hReads⟩
  rcases punct_complete hOpen with ⟨start, hStart⟩
  rcases path_complete hPath.segments_ne_nil hReadsPath
      (by rw [nextKind_of_punct hStart]; simp) with
    ⟨q, hParsePath, hSamePath⟩
  rcases commaList_complete hInner
      (by simp [EndsPattern, EndsPath])
      (by simp [EndsPattern, EndsPath]) (by simp)
      (fun t hFits =>
        (Pattern.startsWith hFits.1).mono
          fun kind hKind => hKind .rightParen)
      (x := (xs, span)) hFitsAll hReads trivial with
    ⟨⟨ys, stop⟩, hParse, hSame⟩
  refine
    ⟨.tupleStruct q ys (q.span.through stop),
      patternOf_of_path hPath hReadsPath ?_, ?_⟩
  · exact namedPattern_eq_done.mpr
      ⟨q, ts₁, hParsePath,
        .inr ⟨start, ts₂, hStart, ys, stop, hParse, rfl⟩⟩
  · simp only [Pattern.mapSpans, Pattern.mapSpansAll_eq,
      hSamePath]
    exact congrArg (Pattern.tupleStruct _ · _) hSame

/-
  Whichever form a pattern has, its first token leads to
  that form.
-/
theorem patternOf_complete
    (hInner :
      inner.Complete Pattern.spellings (Pattern.Fits n)
        EndsPattern (Pattern.mapSpans .forget)) :
    (patternOf inner).Complete Pattern.spellings
      (Pattern.Fits (n + 1)) EndsPattern
      (Pattern.mapSpans .forget) := by
  intro x ts rest hFits hReads hNext
  cases x with
  | identifier name =>
      exact identifierPattern_complete hFits hReads hNext
  | literal l =>
      rw [Pattern.spellings] at hReads
      rcases literal_complete trivial hReads trivial with
        ⟨y, hParse, hSame⟩
      rcases reads_written_iff.mp hReads with
        ⟨t, rfl, hKind⟩
      refine ⟨.literal y, ?_, ?_⟩
      · refine patternOf_eq_done.mpr
          (.inr (.inl ⟨t.kind, rfl, ?_, y, hParse, rfl⟩))
        rw [TokenKind.literal?_eq_some.mpr hKind]
        rfl
      · rw [Pattern.mapSpans, Pattern.mapSpans, hSame]
  | wildcard span =>
      rw [Pattern.spellings] at hReads
      rcases keyword_complete hReads with ⟨start, hParse⟩
      refine ⟨.wildcard start, ?_, rfl⟩
      refine patternOf_eq_done.mpr
        (.inl ⟨nextKind_of_token hParse, ?_⟩)
      simp only [wildcardPattern, bind_eq_done,
        pure_eq_done]
      exact ⟨start, rest, hParse, rfl, rfl⟩
  | tupleStruct path elements span =>
      exact tuplePattern_complete hInner hFits hReads

end Patterns

/-
  Patterns are read back at every level that they fit into.
-/
theorem pattern_complete
    (n : Nat) :
    (pattern n).Complete Pattern.spellings (Pattern.Fits n)
      EndsPattern (Pattern.mapSpans .forget) := by
  induction n with
  | zero =>
      intro x ts rest hFits
      exact absurd hFits x.not_fits_zero
  | succ n ih => exact patternOf_complete ih

end Parser

end FeSyntax
