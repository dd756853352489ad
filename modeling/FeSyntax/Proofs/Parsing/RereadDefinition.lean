import FeSyntax.Proofs.Parsing.Dispatch
import FeSyntax.Proofs.Parsing.RereadExpression

/-
  This file proves that the nodes of definitions can be
  parsed again from their own tokens.  A function of a trait
  or an impl is a definition of its own there.

  Key theorems include:
    * `Parser.definition_of_memberFunction`
    * `Parser.function_gives`
    * `Parser.functionList_gives`
    * `Parser.definition_gives`
    * `Parser.definitions_give`
-/

namespace FeSyntax

/-
  The span of a definition goes around the tokens that it
  owns.
-/
theorem Definition.encloses_of_owns
    {d : Definition}
    {run : List Token}
    (hOwns : d.outline.Owns run) :
    d.span.Encloses run := by
  have hSpan := hOwns.encloses
  cases d <;> exact hSpan

namespace Parser

variable {all : List Token}
variable {limit n : Nat}

------------------------------------------------------------
-- Functions
------------------------------------------------------------

theorem param_gives
    (hLevels : n ≤ limit) :
    (param n).Gives all fun p =>
      p.outline.ReadsAgain limit all := by
  refine .skip Uses.identifier fun _ =>
    .skip (Uses.punct _) fun _ =>
      (ty_gives hLevels).bind fun ty hTy => .pure ?_
  simpa [Param.outline, Node.ReadsAgain] using hTy

/- A type that may stand behind the token that leads to it. -/
theorem leadingTy_gives
    {kind : TokenKind}
    {lead : Parser Span}
    (hLevels : n ≤ limit)
    (hLead : lead.Uses Span.Encloses) :
    (whenAt kind (do let _ ← lead; ty n)).Gives all
      fun o : Option Ty =>
        ∀ t ∈ o, t.outline.ReadsAgain limit all :=
  .whenAt (.skip hLead fun _ => ty_gives hLevels)

/- The types and the block of a function are read again. -/
theorem function_gives
    (hLevels : n ≤ limit)
    (visibility : Option Span) :
    (function n visibility).Gives all fun f =>
      f.outline.PartsReadAgain limit all := by
  refine .skip (Uses.keyword _) fun _ =>
    .skip Uses.identifier fun _ =>
      .skip Uses.typeParams fun _ =>
        .skip (Uses.punct _) fun _ =>
          (param_gives hLevels).commaList.bind
            fun params hParams =>
              (leadingTy_gives hLevels (Uses.punct _)).bind
                fun returnType hReturn =>
                  (block_gives hLevels).bind
                    fun body hBody => .pure ?_
  have hAll := And.intro hParams (And.intro hReturn hBody)
  simpa [Function.outline, or_imp, forall_and] using hAll

/- A function of a trait or an impl is a definition. -/
theorem definition_of_memberFunction
    {ts rest : List Token}
    {f : Function}
    (hDone : memberFunction (n + 1) ts = .done f rest) :
    definition (n + 1) ts = .done (.function f) rest := by
  rcases bind_eq_done.mp hDone with
    ⟨v, mid, hPublic, hMember⟩
  rcases bind_eq_done.mp hMember with
    ⟨isThere, mid', hNext, hFunction⟩
  rcases isAt_eq_done.mp hNext with ⟨hThere, rfl⟩
  cases isThere with
  | false => exact absurd hFunction fail_ne_done
  | true =>
      refine bind_eq_done.mpr ⟨v, mid, hPublic, ?_⟩
      refine bind_eq_done.mpr
        ⟨_, mid,
          peek_eq_done.mpr ⟨of_decide_eq_true hThere, rfl⟩,
          ?_⟩
      cases v <;>
        exact map_eq_done.mpr ⟨f, hFunction, rfl⟩

/-
  A member function is read again as a definition, together
  with its `pub`.
-/
theorem memberFunction_gives
    (hLevels : n ≤ limit) :
    (memberFunction n).Gives all fun f =>
      f.outline.ReadsAgain limit all := by
  cases n with
  | zero =>
      refine .skip (Uses.keyword _).whenAt fun _ =>
        .isAt_bind fun isThere => ?_
      cases isThere <;> exact .fail _
  | succ n =>
      refine .root ?_ fun ts rest f hPlace hDone => ?_
      · refine .skip (Uses.keyword _).whenAt fun v =>
          .isAt_bind fun isThere => ?_
        cases isThere with
        | false => exact .fail _
        | true => exact function_gives (by omega) v
      · exact
          readsAgain_of_done
            (fun r => definition_replays (n + 1))
            ((definition_uses (n + 1)).mono fun _ _ =>
              Definition.encloses_of_owns)
            (definition_deepens hLevels) hPlace
            (definition_of_memberFunction hDone)

theorem functionList_gives
    (hLevels : n ≤ limit) :
    (functionList n).Gives all fun parts =>
      ∀ f ∈ parts.1, f.outline.ReadsAgain limit all :=
  .skip (Uses.punct _) fun _ =>
    (memberFunction_gives hLevels).itemsUntil

------------------------------------------------------------
-- Definitions
------------------------------------------------------------

/- The types in the fields of a struct are read again. -/
theorem struct_gives
    (hLevels : n ≤ limit)
    (visibility : Option Span) :
    (struct n visibility).Gives all fun s =>
      (Definition.struct s).outline.PartsReadAgain limit
        all := by
  have hField :
      (field n).Gives all fun d =>
        d.outline.ReadsAgain limit all := by
    refine .skip (Uses.keyword _).whenAt fun _ =>
      .skip Uses.identifier fun _ =>
        .skip (Uses.punct _) fun _ =>
          (ty_gives hLevels).bind fun ty hTy => .pure ?_
    simpa [Field.outline, Node.ReadsAgain] using hTy
  have hBody :
      (structBody n).Gives all fun parts =>
        ∀ d ∈ parts.1.getD [],
          d.outline.ReadsAgain limit all := by
    refine .peek_bind fun next => ?_
    cases next with
    | none => exact .fail _
    | some kind =>
        cases kind with
        | punct mark =>
            cases mark with
            | semicolon =>
                exact .skip (Uses.punct _) fun _ =>
                  .pure (by simp)
            | leftBrace =>
                exact .skip (Uses.punct _) fun _ =>
                  hField.commaList.bind fun _ hFields =>
                    .pure hFields
            | _ => exact .fail _
        | _ => exact .fail _
  refine .skip (Uses.keyword _) fun _ =>
    .skip Uses.identifier fun _ =>
      .skip Uses.typeParams fun _ =>
        hBody.bind fun parts hFields => .pure ?_
  simpa [Definition.outline, Struct.outlineParts, or_imp,
    forall_and] using hFields

/- The type and the value of a constant are read again. -/
theorem constant_gives
    (hLevels : n ≤ limit)
    (visibility : Option Span) :
    (constant n visibility).Gives all fun c =>
      (Definition.constant c).outline.PartsReadAgain limit
        all := by
  refine .skip (Uses.keyword _) fun _ =>
    .skip Uses.identifier fun _ =>
      .skip (Uses.punct _) fun _ =>
        (ty_gives hLevels).bind fun ty hTy =>
          .skip (Uses.punct _) fun _ =>
            (expression_gives hLevels).bind
              fun value hValue =>
                .skip (Uses.punct _) fun _ => .pure ?_
  simpa [Definition.outline, Constant.outlineParts] using
    And.intro hTy hValue

/- The type that an alias stands for is read again. -/
theorem typeAlias_gives
    (hLevels : n ≤ limit)
    (visibility : Option Span) :
    (typeAlias n visibility).Gives all fun a =>
      (Definition.typeAlias a).outline.PartsReadAgain limit
        all := by
  refine .skip (Uses.keyword _) fun _ =>
    .skip Uses.identifier fun _ =>
      .skip Uses.typeParams fun _ =>
        .skip (Uses.punct _) fun _ =>
          (ty_gives hLevels).bind fun ty hTy =>
            .skip (Uses.punct _) fun _ => .pure ?_
  simpa [Definition.outline, TypeAlias.outlineParts, or_imp,
    forall_and] using hTy

theorem trait_gives
    (hLevels : n ≤ limit)
    (visibility : Option Span) :
    (trait n visibility).Gives all fun t =>
      (Definition.trait t).outline.PartsReadAgain limit
        all := by
  refine .skip (Uses.keyword _) fun _ =>
    .skip Uses.identifier fun _ =>
      .skip Uses.typeParams fun _ =>
        (functionList_gives hLevels).bind
          fun parts hFunctions => .pure ?_
  simpa [Definition.outline, Trait.outlineParts, or_imp,
    forall_and] using hFunctions

/-
  The types and the functions of an implementation are read
  again.
-/
theorem impl_gives
    (hLevels : n ≤ limit) :
    (impl n).Gives all fun i =>
      (Definition.impl i).outline.PartsReadAgain limit
        all := by
  refine .skip (Uses.keyword _) fun _ =>
    (ty_gives hLevels).bind fun ty hTy =>
      (leadingTy_gives hLevels (Uses.keyword _)).bind
        fun traitTy hTrait =>
          (functionList_gives hLevels).bind
            fun parts hFunctions => .pure ?_
  have hAll :=
    And.intro hTy (And.intro hTrait hFunctions)
  simpa [Definition.outline, Impl.outlineParts, or_imp,
    forall_and] using hAll

/- The definitions inside a module are read again. -/
theorem moduleOf_gives
    {inner : Parser Definition}
    (hInner :
      inner.Gives all fun d =>
        d.outline.ReadsAgain limit all) :
    (moduleOf inner).Gives all fun m =>
      (Definition.module m).outline.PartsReadAgain limit
        all := by
  have hItem :
      (moduleItem inner).Gives all fun d =>
        d.outline.ReadsAgain limit all := by
    refine .peek_bind fun next => ?_
    cases next with
    | none => exact .fail _
    | some kind => exact hInner
  refine .skip (Uses.keyword _) fun _ =>
    .skip Uses.identifier fun _ =>
      .skip (Uses.punct _) fun _ =>
        hItem.itemsUntil.bind fun parts hAll => .pure ?_
  simpa [Definition.outline, Module.outlineParts] using hAll

/-
  The node of a function stands below that of a definition,
  and is read again because that one is.
-/
theorem definitionOf_gives
    {inner : Parser Definition}
    (hLevels : n ≤ limit)
    (hInner :
      inner.Gives all fun d =>
        d.outline.ReadsAgain limit all) :
    (definitionOf n inner).Gives all fun d =>
      (Node.definition d).ReadsAgain limit all →
        d.outline.ReadsAgain limit all := by
  have hFunction :
      ∀ v,
        (.function <$> function n v :
            Parser Definition).Gives all fun d =>
          (Node.definition d).ReadsAgain limit all →
            d.outline.ReadsAgain limit all := by
    intro v
    refine (function_gives hLevels v).map
      fun f hParts hRoot => ?_
    have hBelow : f.outline.ReadsAgain limit all :=
      Outline.readsAgain_iff.mpr ⟨hRoot, hParts⟩
    simpa [Definition.outline, hBelow] using hRoot
  -- Below all others, the parts are the nodes that are left.
  have hOther
      {α : Type}
      {p : Parser α}
      {f : α → Definition}
      (hRoot : ∀ a, (f a).outline.root = .definition (f a))
      (hParts :
        p.Gives all fun a =>
          (f a).outline.PartsReadAgain limit all) :
      (f <$> p).Gives all fun d =>
        (Node.definition d).ReadsAgain limit all →
          d.outline.ReadsAgain limit all := by
    refine hParts.map fun a hBelow hNode => ?_
    rw [Outline.readsAgain_iff, hRoot a]
    exact ⟨hNode, hBelow⟩
  refine .skip (Uses.keyword _).whenAt fun v =>
    .peek_bind fun next => ?_
  cases next with
  | none => cases v <;> exact .fail _
  | some kind =>
      cases kind with
      | keyword k =>
          cases k with
          | modKw =>
              cases v with
              | none =>
                  exact hOther (fun _ => rfl)
                    (moduleOf_gives hInner)
              | some span => exact .fail _
          | implKw =>
              cases v with
              | none =>
                  exact hOther (fun _ => rfl)
                    (impl_gives hLevels)
              | some span => exact .fail _
          | fnKw => cases v <;> exact hFunction _
          | traitKw =>
              cases v <;>
                exact hOther (fun _ => rfl)
                  (trait_gives hLevels _)
          | structKw =>
              cases v <;>
                exact hOther (fun _ => rfl)
                  (struct_gives hLevels _)
          | constKw =>
              cases v <;>
                exact hOther (fun _ => rfl)
                  (constant_gives hLevels _)
          | typeKw =>
              cases v <;>
                exact hOther (fun _ => rfl)
                  (typeAlias_gives hLevels _)
          | _ => cases v <;> exact .fail _
      | _ => cases v <;> exact .fail _

/-
  Definitions with at most the levels of the limit are read
  again, with all their parts.
-/
theorem definition_gives
    (hLevels : n ≤ limit) :
    (definition n).Gives all fun d =>
      d.outline.ReadsAgain limit all := by
  induction n with
  | zero => exact .fail _
  | succ n ih =>
      intro ts rest d hPlace hDone
      have hLess : n ≤ limit := by omega
      rcases definitionOf_gives hLess (ih hLess) hPlace hDone
        with ⟨hLater, hNodes⟩
      refine ⟨hLater, hNodes ?_⟩
      exact
        readsAgain_of_done
          (fun r => definition_replays (n + 1))
          ((definition_uses (n + 1)).mono fun _ _ =>
            Definition.encloses_of_owns)
          (definition_deepens hLevels) hPlace hDone

/- All nodes of a file are read again from its tokens. -/
theorem definitions_give
    {ds : List Definition}
    {rest : List Token}
    (hDone : definitions limit all = .done ds rest) :
    ∀ d ∈ ds, d.outline.ReadsAgain limit all := by
  have hStep :
      (definitionStep limit).Gives all
        (Sum.elim
          (fun d => d.outline.ReadsAgain limit all)
          fun _ => True) := by
    refine .peek_bind fun next => ?_
    cases next with
    | none => exact .pure trivial
    | some kind =>
        exact (definition_gives (Nat.le_refl _)).map
          fun d hAgain => hAgain
  have hAll :
      (definitions limit).Gives all fun ds =>
        ∀ d ∈ ds, d.outline.ReadsAgain limit all :=
    (Gives.collect hStep).bind fun parts hParts =>
      .pure hParts.1
  exact (hAll List.suffix_rfl hDone).2

end Parser

end FeSyntax
