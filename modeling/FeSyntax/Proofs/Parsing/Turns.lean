import FeSyntax.Proofs.Parsing.AdvanceDefinition

/-
  This file proves that the loops of the parser come to an
  end.  Every turn of a loop that gives an item passes a
  token, so there are no more turns than tokens, and a loop
  never ends for want of fuel.

  Key definitions include:
    * `Parser.Turns`
    * `Parser.EndsBehind`
    * `Parser.CommaList`
    * `Parser.Loop`

  Key theorems include:
    * `Parser.Turns.add_length_le`
    * `Parser.ItemsAdvance.exists_endsBehind`
    * `Parser.Loop.step_itemsAdvance`
-/

namespace FeSyntax

namespace Parser

------------------------------------------------------------
-- Turns
------------------------------------------------------------

section Turns

variable {α β : Type}
variable {step : Parser (α ⊕ β)}
variable {ts us rest : List Token}

/-
  `us` is left of `ts` behind a number of turns of a loop,
  each of which gives an item.
-/
inductive Turns
    (step : Parser (α ⊕ β)) :
    Nat → List Token → List Token → Prop where
  | start
      (ts : List Token) :
      Turns step 0 ts ts
  | turn
      {ts mid us : List Token}
      {a : α}
      {k : Nat}
      (hStep : step ts = .done (.inl a) mid)
      (hMore : Turns step k mid us) :
      Turns step (k + 1) ts us

/- There are no more turns than tokens that they pass. -/
theorem Turns.add_length_le
    {k : Nat}
    (hItems : step.ItemsAdvance)
    (hTurns : Turns step k ts us) :
    k + us.length ≤ ts.length := by
  induction hTurns with
  | start ts => exact Nat.le_of_eq (Nat.zero_add _)
  | @turn ts mid us a k hStep hMore ih =>
      have hLess := (hItems ts mid a hStep).length_le
      omega

/-
  A loop that starts at `ts` ends with the step at `us`: it
  stops where that step stops, or gives an item for each of
  the `k` turns and the last part of that step.
-/
inductive EndsBehind
    (missing : Expectation)
    (step : Parser (α ⊕ β))
    (k : Nat)
    (ts us : List Token) : Prop where
  | stopped
      {fault : Fault}
      {rest : List Token}
      (hStep : step us = .stopped fault rest)
      (hLoop :
        collect missing step ts = .stopped fault rest)
  | last
      {items : List α}
      {b : β}
      {rest : List Token}
      (hStep : step us = .done (.inr b) rest)
      (hLoop :
        collect missing step ts = .done (items, b) rest)
      (hItems : items.length = k)

/- A turn puts its item in front of those that follow. -/
theorem collect_of_item
    {missing : Expectation}
    {a : α}
    (hItems : step.ItemsAdvance)
    (hStep : step ts = .done (.inl a) rest) :
    collect missing step ts =
      (collect missing step rest).map fun parts =>
        (a :: parts.1, parts.2) := by
  rcases exists_collectWithin_of_item missing ([] : List α)
      hItems hStep (Nat.le_refl _) with
    ⟨less, -, hEnough, hRun⟩
  rw [collect, hRun, collectWithin_eq_map hItems hEnough]
  rfl

theorem EndsBehind.turn
    {missing : Expectation}
    {a : α}
    {k : Nat}
    (hItems : step.ItemsAdvance)
    (hStep : step ts = .done (.inl a) rest)
    (hEnds : EndsBehind missing step k rest us) :
    EndsBehind missing step (k + 1) ts us := by
  have hLoop :
      collect missing step ts =
        (collect missing step rest).map fun parts =>
          (a :: parts.1, parts.2) :=
    collect_of_item hItems hStep
  cases hEnds with
  | stopped hLast hRest =>
      rw [hRest] at hLoop
      exact .stopped hLast hLoop
  | last hLast hRest hLength =>
      rw [hRest] at hLoop
      refine .last hLast hLoop ?_
      rw [List.length_cons, hLength]

/- A loop ends with a step of its own, and not before. -/
theorem ItemsAdvance.exists_endsBehind
    (missing : Expectation)
    (hItems : step.ItemsAdvance)
    (ts : List Token) :
    ∃ k us, Turns step k ts us ∧
      EndsBehind missing step k ts us := by
  -- Every item leaves fewer tokens.
  induction hLength : ts.length
    using Nat.strongRecOn generalizing ts with
  | ind n ih =>
      cases hStep : step ts with
      | stopped fault rest =>
          exact ⟨0, ts, .start ts, .stopped hStep
            (collectWithin_of_stopped hStep)⟩
      | done part rest =>
          cases part with
          | inr b =>
              exact ⟨0, ts, .start ts, .last hStep
                (collectWithin_of_last hStep) rfl⟩
          | inl a =>
              have hLess :=
                (hItems ts rest a hStep).length_le
              rcases ih rest.length (by omega) rest rfl with
                ⟨k, us, hTurns, hEnds⟩
              exact
                ⟨k + 1, us, .turn hStep hTurns,
                  hEnds.turn hItems hStep⟩

end Turns

------------------------------------------------------------
-- Lists With Commas
------------------------------------------------------------

/- The lists whose items have commas between them. -/
inductive CommaList where
  | params
  | fields
  | typeParams
  | tuple
  | patterns
deriving DecidableEq, Repr

namespace CommaList

/- What a list with commas is a list of. -/
abbrev Item : CommaList → Type
  | params => Param
  | fields => Field
  | typeParams => Identifier
  | tuple => Ty
  | patterns => Pattern

/- The parser of the items, where `levels` are left. -/
def item
    (levels : Nat) : (l : CommaList) → Parser l.Item
  | params => param levels
  | fields => field levels
  | typeParams => identifier
  | tuple => ty levels
  | patterns => pattern levels

theorem item_passes
    (n : Nat)
    (l : CommaList) :
    (l.item n).Passes 1 0 := by
  have hOne : 1 ≤ 1 := Nat.le_refl 1
  have hZero : 0 ≤ n := Nat.zero_le n
  cases l with
  | params => exact (param_passes n).mono hOne hZero
  | fields => exact (field_passes n).mono hOne hZero
  | typeParams => exact .identifier
  | tuple => exact (ty_passes n).mono hOne hZero
  | patterns => exact (pattern_passes n).mono hOne hZero

end CommaList

------------------------------------------------------------
-- Loops
------------------------------------------------------------

/-
  The loops of the parser, which `definitions`, `moduleOf`,
  `functionList`, `commaItems`, `path`, `blockOf` and
  `matchOf` collect.  A list with commas parses its first
  item before its loop, and the loop parses the items behind
  a comma.
-/
inductive Loop where
  | file
  | module
  | functions
  | list (l : CommaList)
  | path
  | block
  | arms
deriving DecidableEq, Repr

namespace Loop

/- What a loop gives with each turn. -/
abbrev Item : Loop → Type
  | file => Definition
  | module => Definition
  | functions => Function
  | list l => l.Item
  | path => Identifier
  | block => Statement
  | arms => MatchArm

/- What a loop gives at its end. -/
abbrev Last : Loop → Type
  | file => Unit
  | module => Span
  | functions => Span
  | list _ => Unit
  | path => Unit
  | block => BlockEnd
  | arms => Span

/- One turn of a loop, or its end. -/
def step
    (levels : Nat) : (l : Loop) → Parser (l.Item ⊕ l.Last)
  | file => definitionStep levels
  | module =>
      untilStep .rightBrace (moduleItem (definition levels))
  | functions =>
      untilStep .rightBrace (memberFunction levels)
  | list l => afterStep .comma (l.item levels)
  | path => afterStep .colonColon identifier
  | block => blockPart (expression levels) (ty levels)
  | arms =>
      untilStep .rightBrace
        (matchArm (expression levels) (pattern levels))

theorem step_itemsAdvance
    (n : Nat)
    (l : Loop) :
    (l.step n).ItemsAdvance := by
  cases l with
  | file => exact .definitionStep n
  | module =>
      have hItem := moduleItem_passes (definition_passes n)
      exact .untilStep hItem .rightBrace
  | functions =>
      exact .untilStep (memberFunction_passes n) .rightBrace
  | list l => exact .afterStep (l.item_passes n) .comma
  | path =>
      have hName : identifier.Passes 1 0 := .identifier
      exact .afterStep hName .colonColon
  | block =>
      exact .blockPart (expression_passes n) (ty_passes n)
  | arms =>
      have hArm :=
        matchArm_passes (expression_passes n)
          (pattern_passes n)
      exact .untilStep hArm .rightBrace

/- The value at the end of a block is a turn of its own. -/
theorem advances_of_block_value
    {n : Nat}
    {ts rest : List Token}
    {value : Expression}
    {stop : Span}
    (hStep :
      block.step n ts =
        .done (.inr (some value, stop)) rest) :
    Advances 2 ts rest := by
  rcases blockPart_eq_done.mp hStep with
    ⟨_, -, hPart⟩ | ⟨-, b, -, hPart⟩ | ⟨-, -, hPart⟩
  · cases hPart
  · cases hPart
  · rcases expressionPart_eq_done.mp hPart with
      ⟨value, mid, hValue, ⟨stop, -, hEnd⟩ | hLast⟩
    · cases hEnd
    · rcases hLast with ⟨-, stop, hStop, -⟩
      have hBrace : (punct .rightBrace).Passes 1 0 :=
        .punct .rightBrace
      exact ((expression_passes n).done hValue).trans
        (hBrace.done hStop)

end Loop

end Parser

end FeSyntax
