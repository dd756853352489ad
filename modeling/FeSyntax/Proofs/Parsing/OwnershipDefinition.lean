import FeSyntax.Proofs.Parsing.OwnershipExpression

/-
  This file proves that definitions own the tokens that
  their parsers pass, from an optional `pub` on, and so do
  all nodes in them.

  Key theorems include:
    * `Parser.function_uses`
    * `Parser.definition_uses`
    * `Parser.ownsAll_of_definitions`
-/

namespace FeSyntax

/-
  The outlines of a list are those of its definitions in
  turn.
-/
@[simp] theorem Module.outlineDefinitions_eq
    (ds : List Definition) :
    outlineDefinitions ds = ds.map Definition.outline := by
  induction ds with
  | nil => rfl
  | cons d ds ih => simp [outlineDefinitions, ih]

namespace Parser

------------------------------------------------------------
-- Visibility
------------------------------------------------------------

/- The run of an optional `pub`, with its span. -/
def Marks
    (v : Option Span)
    (before : List Token) : Prop :=
  (v = none ∧ before = []) ∨
    ∃ span, v = some span ∧ span.Encloses before

/- A definition starts with its `pub` or its keyword. -/
theorem Marks.startsWith
    {v : Option Span}
    {start : Span}
    {before run : List Token}
    (hMarks : Marks v before)
    (hStart : start.StartsWith run) :
    (v.getD start).StartsWith (before ++ run) := by
  rcases hMarks with ⟨rfl, rfl⟩ | ⟨span, rfl, hSpan⟩
  · exact hStart
  · exact hSpan.starts.append run

/-
  Behind its optional `pub`, a parser passes the rest of the
  run that its value owns.
-/
def UsesBehind
    {α : Type}
    (v : Option Span)
    (outline : α → Outline)
    (p : Parser α) : Prop :=
  p.Uses fun a run =>
    ∀ before, Marks v before →
      (outline a).Owns (before ++ run)

section Functions

variable (n : Nat)
variable (v : Option Span)

/- A parameter owns its name, the colon and its type. -/
theorem param_uses :
    (param n).Uses fun p run => p.outline.Owns run := by
  refine Uses.identifier.bind fun name r hName => ?_
  refine (Uses.punct .colon).bind fun _ r1 _ => ?_
  refine (ty_uses n).bind fun ty r2 hTy => .pure ?_
  rw [List.append_nil]
  have hSpan := Ty.encloses_of_owns hTy
  refine .of_parts ?_ rfl ?_
  · exact .through (hName.encloses.starts.append _)
      ((hSpan.stops.skip r1).skip r)
  · exact .first hName (.skip (.single hTy) r1)

/-
  A function owns its tokens together with a `pub` in front
  of them.
-/
theorem function_uses :
    (function n v).UsesBehind v Function.outline := by
  refine (Uses.keyword .fnKw).bind fun start r hStart => ?_
  refine Uses.identifier.bind fun name r1 hName => ?_
  refine Uses.typeParams.bind fun typeParams r2 hTypes => ?_
  refine (Uses.punct .leftParen).bind fun _ r3 _ => ?_
  refine (Uses.commaList (param_uses n) .rightParen).bind
    fun params r4 hParams => ?_
  refine (Uses.behind (.punct .arrow) (ty_uses n)).bind
    fun returnType r5 hReturn => ?_
  refine (block_uses n).bind fun body r6 hBody => .pure ?_
  intro before hMarks
  have hSpan := Block.encloses_of_owns hBody
  have hParts :
      Outline.OwnsAll
        (typeParams.map Identifier.outline ++
          params.1.map Param.outline ++
          (returnType.map Ty.outline).toList ++
          [body.outline])
        (r2 ++ (r3 ++ (r4 ++ (r5 ++ r6)))) := by
    have hLast := hReturn.append (.single hBody)
    simp only [List.append_assoc]
    exact hTypes.append ((hParams.1.append hLast).skip r3)
  rw [List.append_nil]
  refine .of_parts (.through ?_ ?_) rfl ?_
  · exact hMarks.startsWith (hStart.starts.append _)
  · exact ((((((hSpan.stops.skip r5).skip r4).skip r3).skip
      r2).skip r1).skip r).skip before
  · exact ((Outline.OwnsAll.first hName hParts).skip r).skip
      before

/-
  The level that a nested function takes changes nothing
  about that.
-/
theorem nestedFunction_uses :
    (nestedFunction n v).UsesBehind v Function.outline := by
  cases n with
  | zero => exact .fail _
  | succ n => exact function_uses n v

/-
  A member function has its own `pub`, if any, and owns it
  as well.
-/
theorem memberFunction_uses :
    (memberFunction n).Uses fun f run =>
      f.outline.Owns run := by
  refine (Uses.keyword .pubKw).whenAt.bind
    fun v before hMarks => .isAt_bind fun isThere => ?_
  cases isThere with
  | false => exact .fail _
  | true =>
      exact (nestedFunction_uses n v).mono
        fun f run hOwns => hOwns before hMarks

/-
  The functions between braces own their tokens, and the end
  of the list is the closing brace.
-/
theorem functionList_uses :
    (functionList n).Uses fun parts run =>
      Outline.OwnsAll (parts.1.map Function.outline) run ∧
        parts.2.StopsWith run := by
  refine (Uses.punct .leftBrace).bind fun _ r _ => ?_
  refine (Uses.itemsUntil (memberFunction_uses n)
    .rightBrace).mono fun parts r1 hBoth => ?_
  exact ⟨hBoth.1.skip r, hBoth.2.skip r⟩

------------------------------------------------------------
-- Structs
------------------------------------------------------------

/- A field owns its `pub`, its name and its type. -/
theorem field_uses :
    (field n).Uses fun f run => f.outline.Owns run := by
  refine (Uses.keyword .pubKw).whenAt.bind
    fun v before hMarks => ?_
  refine Uses.identifier.bind fun name r hName => ?_
  refine (Uses.punct .colon).bind fun _ r1 _ => ?_
  refine (ty_uses n).bind fun ty r2 hTy => .pure ?_
  rw [List.append_nil]
  have hSpan := Ty.encloses_of_owns hTy
  refine .of_parts (.through ?_ ?_) rfl ?_
  · exact Marks.startsWith hMarks
      (hName.encloses.starts.append _)
  · exact ((hSpan.stops.skip r1).skip r).skip before
  · exact .skip (.first hName (.skip (.single hTy) r1))
      before

/-
  The body of a struct is a list of fields or a semicolon,
  and stops with its last token.
-/
theorem structBody_uses :
    (structBody n).Uses fun parts run =>
      Outline.OwnsAll
          ((parts.1.getD []).map Field.outline) run ∧
        parts.2.StopsWith run := by
  refine .peek_bind fun next => ?_
  cases next with
  | none => exact .fail _
  | some kind =>
      cases kind with
      | punct mark =>
          cases mark with
          | semicolon =>
              refine (Uses.punct .semicolon).bind
                fun stop r hStop => .pure ?_
              rw [List.append_nil]
              exact ⟨.nil, hStop.stops⟩
          | leftBrace =>
              have hFields :=
                Uses.commaList (field_uses n) .rightBrace
              refine (Uses.punct .leftBrace).bind
                fun _ r _ => ?_
              refine hFields.bind
                fun parts r1 hBoth => .pure ?_
              rw [List.append_nil]
              exact ⟨hBoth.1.skip r, hBoth.2.skip r⟩
          | _ => exact .fail _
      | _ => exact .fail _

/-
  A struct owns its tokens together with a `pub` in front of
  them.
-/
theorem struct_uses :
    (struct n v).UsesBehind v fun s =>
      (Definition.struct s).outline := by
  refine (Uses.keyword .structKw).bind
    fun start r hStart => ?_
  refine Uses.identifier.bind fun name r1 hName => ?_
  refine Uses.typeParams.bind fun typeParams r2 hTypes => ?_
  refine (structBody_uses n).bind fun body r3 hBody =>
    .pure ?_
  intro before hMarks
  rw [List.append_nil]
  refine .of_parts (.through ?_ ?_) rfl ?_
  · exact hMarks.startsWith (hStart.starts.append _)
  · exact (((hBody.2.skip r2).skip r1).skip r).skip before
  · exact .skip
      (.skip (.first hName (hTypes.append hBody.1)) r) before

------------------------------------------------------------
-- Other Definitions
------------------------------------------------------------

theorem constant_uses :
    (constant n v).UsesBehind v fun c =>
      (Definition.constant c).outline := by
  refine (Uses.keyword .constKw).bind
    fun start r hStart => ?_
  refine Uses.identifier.bind fun name r1 hName => ?_
  refine (Uses.punct .colon).bind fun _ r2 _ => ?_
  refine (ty_uses n).bind fun ty r3 hTy => ?_
  refine (Uses.punct .equals).bind fun _ r4 _ => ?_
  refine (expression_uses n).bind fun value r5 hValue => ?_
  refine (Uses.punct .semicolon).bind
    fun stop r6 hStop => .pure ?_
  intro before hMarks
  rw [List.append_nil]
  refine .of_parts (.through ?_ ?_) rfl ?_
  · exact hMarks.startsWith (hStart.starts.append _)
  · exact ((((((hStop.stops.skip r5).skip r4).skip r3).skip
      r2).skip r1).skip r).skip before
  · have hBoth :
        Outline.OwnsAll [ty.outline, value.outline]
          (r3 ++ (r4 ++ (r5 ++ r6))) :=
      .first hTy (.skip (.first hValue .nil) r4)
    exact .skip (.skip (.first hName (hBoth.skip r2)) r)
      before

/- A type alias owns its tokens, up to its semicolon. -/
theorem typeAlias_uses :
    (typeAlias n v).UsesBehind v fun a =>
      (Definition.typeAlias a).outline := by
  refine (Uses.keyword .typeKw).bind
    fun start r hStart => ?_
  refine Uses.identifier.bind fun name r1 hName => ?_
  refine Uses.typeParams.bind fun typeParams r2 hTypes => ?_
  refine (Uses.punct .equals).bind fun _ r3 _ => ?_
  refine (ty_uses n).bind fun ty r4 hTy => ?_
  refine (Uses.punct .semicolon).bind
    fun stop r5 hStop => .pure ?_
  intro before hMarks
  rw [List.append_nil]
  refine .of_parts (.through ?_ ?_) rfl ?_
  · exact hMarks.startsWith (hStart.starts.append _)
  · exact (((((hStop.stops.skip r4).skip r3).skip r2).skip
      r1).skip r).skip before
  · have hLast :
        Outline.OwnsAll [ty.outline] (r4 ++ r5) :=
      .first hTy .nil
    exact .skip
      (.skip
        (.first hName (hTypes.append (hLast.skip r3))) r)
      before

theorem trait_uses :
    (trait n v).UsesBehind v fun t =>
      (Definition.trait t).outline := by
  refine (Uses.keyword .traitKw).bind
    fun start r hStart => ?_
  refine Uses.identifier.bind fun name r1 hName => ?_
  refine Uses.typeParams.bind fun typeParams r2 hTypes => ?_
  refine (functionList_uses n).bind fun parts r3 hBoth =>
    .pure ?_
  intro before hMarks
  rw [List.append_nil]
  refine .of_parts (.through ?_ ?_) rfl ?_
  · exact hMarks.startsWith (hStart.starts.append _)
  · exact (((hBoth.2.skip r2).skip r1).skip r).skip before
  · exact .skip
      (.skip (.first hName (hTypes.append hBoth.1)) r) before

/-
  An implementation has no `pub`, and owns all its tokens.
-/
theorem impl_uses :
    (impl n).Uses fun i run =>
      (Definition.impl i).outline.Owns run := by
  refine (Uses.keyword .implKw).bind
    fun start r hStart => ?_
  refine (ty_uses n).bind fun ty r1 hTy => ?_
  refine (Uses.behind (.keyword .forKw) (ty_uses n)).bind
    fun traitTy r2 hTrait => ?_
  refine (functionList_uses n).bind fun parts r3 hBoth =>
    .pure ?_
  rw [List.append_nil]
  refine .of_parts (.through ?_ ?_) rfl ?_
  · exact hStart.starts.append _
  · exact ((hBoth.2.skip r2).skip r1).skip r
  · exact .skip (.first hTy (hTrait.append hBoth.1)) r

end Functions

------------------------------------------------------------
-- Definitions
------------------------------------------------------------

section Definitions

variable {n : Nat}
variable {inner : Parser Definition}
variable
  (hInner : inner.Uses fun d run => d.outline.Owns run)

include hInner

/-
  A module owns its tokens if the definitions inside it do.
-/
theorem moduleOf_uses :
    (moduleOf inner).Uses fun m run =>
      (Definition.module m).outline.Owns run := by
  have hItem :
      (moduleItem inner).Uses fun d run =>
        d.outline.Owns run := by
    refine .peek_bind fun next => ?_
    cases next with
    | none => exact .fail _
    | some kind => exact hInner
  refine (Uses.keyword .modKw).bind
    fun start r hStart => ?_
  refine Uses.identifier.bind fun name r1 hName => ?_
  refine (Uses.punct .leftBrace).bind fun _ r2 _ => ?_
  refine (Uses.itemsUntil hItem .rightBrace).bind
    fun parts r3 hBoth => .pure ?_
  rw [List.append_nil]
  refine .of_parts (.through ?_ ?_) rfl ?_
  · exact hStart.starts.append _
  · exact ((hBoth.2.skip r2).skip r1).skip r
  · rw [Module.outlineParts, Module.outlineDefinitions_eq]
    exact .skip (.first hName (hBoth.1.skip r2)) r

/- Any definition owns its tokens if those inside it do. -/
theorem definitionOf_uses :
    (definitionOf n inner).Uses fun d run =>
      d.outline.Owns run := by
  refine (Uses.keyword .pubKw).whenAt.bind
    fun v before hMarks => .peek_bind fun next => ?_
  -- The `pub` in front belongs to every definition behind it.
  have hMarked
      {α : Type}
      {p : Parser α}
      {f : α → Definition}
      (hUses : p.UsesBehind v fun a => (f a).outline) :
      (f <$> p).Uses fun d run =>
        d.outline.Owns (before ++ run) :=
    .map (hUses.mono fun a run hOwns => hOwns before hMarks)
  have hFunction :
      (function n v).UsesBehind v fun f =>
        (Definition.function f).outline := by
    refine (function_uses n v).mono
      fun f run hOwns before hMarks => ?_
    have hOwns := hOwns before hMarks
    exact .of_parts hOwns.encloses rfl (.single hOwns)
  have hModule :
      (Definition.module <$> moduleOf inner).Uses
        fun d run => d.outline.Owns run :=
    .map (moduleOf_uses hInner)
  have hImpl :
      (Definition.impl <$> impl n).Uses fun d run =>
        d.outline.Owns run :=
    .map (impl_uses n)
  cases next with
  | none => cases v <;> exact .fail _
  | some kind =>
      cases kind with
      | keyword k =>
          cases k with
          | modKw =>
              rcases hMarks with
                ⟨rfl, rfl⟩ | ⟨span, rfl, -⟩
              · exact hModule
              · exact .fail _
          | implKw =>
              rcases hMarks with
                ⟨rfl, rfl⟩ | ⟨span, rfl, -⟩
              · exact hImpl
              · exact .fail _
          | fnKw => cases v <;> exact hMarked hFunction
          | traitKw =>
              cases v <;> exact hMarked (trait_uses n _)
          | structKw =>
              cases v <;> exact hMarked (struct_uses n _)
          | constKw =>
              cases v <;> exact hMarked (constant_uses n _)
          | typeKw =>
              cases v <;> exact hMarked (typeAlias_uses n _)
          | _ => cases v <;> exact .fail _
      | _ => cases v <;> exact .fail _

end Definitions

/- Definitions own their tokens at every level. -/
theorem definition_uses
    (n : Nat) :
    (definition n).Uses fun d run => d.outline.Owns run := by
  induction n with
  | zero => exact .fail _
  | succ n ih => exact definitionOf_uses ih

/- Definitions up to the end own all tokens in order. -/
theorem ownsAll_of_definitions
    {n : Nat}
    {ts rest : List Token}
    {ds : List Definition}
    (hDone : definitions n ts = .done ds rest) :
    Outline.OwnsAll (ds.map Definition.outline) ts := by
  have hParts :
      (collect .definition (definitionStep n)).Uses
        fun parts run =>
          Outline.OwnsAll
            (parts.1.map Definition.outline) run := by
    have hStep :
        (definitionStep n).Uses fun part run =>
          Sum.elim (fun d => d.outline.Owns run)
            (fun _ => True) part := by
      refine .peek_bind fun next => ?_
      cases next with
      | none => exact .pure trivial
      | some kind => exact .map (definition_uses n)
    refine .collect hStep (fun _ _ _ => .nil) ?_
    intro d ds _ run more hOwns hAll
    exact .first hOwns hAll
  have hAll :
      (definitions n).Uses fun ds run =>
        Outline.OwnsAll (ds.map Definition.outline) run := by
    refine hParts.bind fun parts run hGood => .pure ?_
    rw [List.append_nil]
    exact hGood
  rcases hAll hDone with ⟨run, rfl, hGood⟩
  exact hGood.extend rest

end Parser

end FeSyntax
