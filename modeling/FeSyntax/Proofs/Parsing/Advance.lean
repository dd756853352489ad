import FeSyntax.Proofs.Parsing.Outcome

/-
  This file says how far parsers go.  Whether it is done or
  stops, a parser leaves an end of the tokens that it was
  given, and it has passed no error.  It runs out of levels
  only behind enough tokens: every token that was passed
  stands for at most two levels.

  Key definitions include:
    * `Advances`
    * `Parser.Passes`
    * `Parser.ItemsAdvance`

  Key theorems include:
    * `Parser.Passes.bind`
    * `Parser.Passes.behind`
    * `Parser.Passes.collect`
    * `Parser.Passes.commaList`
-/

namespace FeSyntax

------------------------------------------------------------
-- Passing Tokens
------------------------------------------------------------

/-
  `rest` is what is left of `ts` behind at least `n` tokens,
  none of which is an error.
-/
def Advances
    (n : Nat)
    (ts rest : List Token) : Prop :=
  ∃ used, ts = used ++ rest ∧ n ≤ used.length ∧
    ∀ t ∈ used, ∀ cause, t.kind ≠ .error cause

namespace Advances

variable {n m : Nat}
variable {ts mid rest : List Token}

theorem refl
    (ts : List Token) :
    Advances 0 ts ts :=
  ⟨[], rfl, Nat.le_refl _, by simp⟩

/- Tokens that are passed in turn add up. -/
theorem trans
    (hFirst : Advances n ts mid)
    (hSecond : Advances m mid rest) :
    Advances (n + m) ts rest := by
  rcases hFirst with ⟨before, rfl, hBefore, hProper⟩
  rcases hSecond with ⟨behind, rfl, hBehind, hProper'⟩
  refine ⟨before ++ behind, ?_, ?_, ?_⟩
  · rw [List.append_assoc]
  · rw [List.length_append]
    omega
  · intro t hMem
    rcases List.mem_append.mp hMem with hMem | hMem
    · exact hProper t hMem
    · exact hProper' t hMem

/- Who has passed some tokens has passed fewer. -/
theorem mono
    (hAdvances : Advances n ts rest)
    (hLess : m ≤ n) :
    Advances m ts rest := by
  rcases hAdvances with ⟨used, hTokens, hLength, hProper⟩
  exact ⟨used, hTokens, Nat.le_trans hLess hLength, hProper⟩

/-
  What is left is shorter by the tokens that were passed.
-/
theorem length_le
    (hAdvances : Advances n ts rest) :
    rest.length + n ≤ ts.length := by
  rcases hAdvances with ⟨used, rfl, hLength, -⟩
  rw [List.length_append]
  omega

end Advances

namespace Parser

variable {α β : Type}

/-
  A parser that is done has passed at least `least` tokens,
  and one that runs out of levels has passed at least half
  as many as `levels`.
-/
structure Passes
    (least levels : Nat)
    (p : Parser α) : Prop where
  done :
    ∀ {ts rest a},
      p ts = .done a rest → Advances least ts rest
  stopped :
    ∀ {ts rest fault},
      p ts = .stopped fault rest →
      ∃ n, Advances n ts rest ∧
        (fault = .tooDeep → levels ≤ 2 * n)

------------------------------------------------------------
-- Sequences
------------------------------------------------------------

namespace Passes

variable {least least' levels levels' : Nat}

/- A bound on tokens or levels can be lowered. -/
theorem mono
    {p : Parser α}
    (hPasses : p.Passes least levels)
    (hLeast : least' ≤ least)
    (hLevels : levels' ≤ levels) :
    p.Passes least' levels' where
  done := fun hDone => (hPasses.done hDone).mono hLeast
  stopped := by
    intro ts rest fault hStopped
    rcases hPasses.stopped hStopped with
      ⟨n, hAdvances, hDeep⟩
    refine ⟨n, hAdvances, ?_⟩
    intro hFault
    exact Nat.le_trans hLevels (hDeep hFault)

/- At least no token is passed. -/
theorem weaken
    {p : Parser α}
    (hPasses : p.Passes least levels)
    (hLevels : levels' ≤ levels) :
    p.Passes 0 levels' :=
  hPasses.mono (Nat.zero_le _) hLevels

theorem pure
    (a : α) :
    (Pure.pure a : Parser α).Passes 0 levels where
  done := by
    intro ts rest b hDone
    cases hDone
    exact .refl ts
  stopped := by
    intro ts rest fault hStopped
    cases hStopped

/-
  A parser that asks for something else runs out of no
  levels.
-/
theorem ofExpected
    (what : Expectation) :
    (fail (.expected what) : Parser α).Passes least
      levels where
  done := by
    intro ts rest a hDone
    cases hDone
  stopped := by
    intro ts rest fault hStopped
    cases hStopped
    exact ⟨0, .refl ts, nofun⟩

/- No level is left, and no token is passed. -/
theorem ofTooDeep :
    (fail .tooDeep : Parser α).Passes least 0 where
  done := by
    intro ts rest a hDone
    cases hDone
  stopped := by
    intro ts rest fault hStopped
    cases hStopped
    exact ⟨0, .refl ts, fun _ => Nat.zero_le _⟩

/- Every token that was passed stands for two levels. -/
theorem bind
    {p : Parser α}
    {f : α → Parser β}
    (hParser : p.Passes least levels)
    (hNext :
      ∀ a, (f a).Passes least' (levels - 2 * least)) :
    (p >>= f).Passes (least + least') levels where
  done := by
    intro ts rest b hDone
    rcases bind_eq_done.mp hDone with
      ⟨a, mid, hFirst, hSecond⟩
    exact (hParser.done hFirst).trans
      ((hNext a).done hSecond)
  stopped := by
    intro ts rest fault hStopped
    rcases bind_eq_stopped.mp hStopped with
      hFirst | ⟨a, mid, hFirst, hSecond⟩
    · exact hParser.stopped hFirst
    · rcases (hNext a).stopped hSecond with
        ⟨n, hAdvances, hDeep⟩
      refine
        ⟨least + n, (hParser.done hFirst).trans hAdvances,
          ?_⟩
      intro hFault
      have hLevels := hDeep hFault
      omega

/- What follows need not pass anything. -/
theorem first
    {p : Parser α}
    {f : α → Parser β}
    (hParser : p.Passes least levels)
    (hNext : ∀ a, (f a).Passes 0 levels) :
    (p >>= f).Passes least levels :=
  hParser.bind fun a =>
    (hNext a).mono (Nat.le_refl _) (Nat.sub_le _ _)

/- Nothing at all need be passed. -/
theorem next
    {p : Parser α}
    {f : α → Parser β}
    (hParser : p.Passes least levels)
    (hNext : ∀ a, (f a).Passes 0 levels) :
    (p >>= f).Passes 0 levels :=
  (hParser.first hNext).weaken (Nat.le_refl _)

/- What comes first need not pass anything. -/
theorem later
    {p : Parser α}
    {f : α → Parser β}
    (hParser : p.Passes 0 levels)
    (hNext : ∀ a, (f a).Passes least levels) :
    (p >>= f).Passes least levels := by
  rw [← Nat.zero_add least]
  exact hParser.bind hNext

/- A token in front leaves room for two more levels. -/
theorem behind
    {p : Parser α}
    {f : α → Parser β}
    (hParser : p.Passes 1 levels)
    (hNext : ∀ a, (f a).Passes 0 (levels - 2)) :
    (p >>= f).Passes 1 levels :=
  hParser.bind hNext

/- A function of the value passes nothing. -/
theorem map
    {p : Parser α}
    (f : α → β)
    (hParser : p.Passes least levels) :
    (f <$> p).Passes least levels :=
  hParser.first fun a => pure (f a)

------------------------------------------------------------
-- Single Tokens
------------------------------------------------------------

/- To look at the next token is to pass nothing. -/
theorem peek :
    Parser.peek.Passes 0 levels where
  done := by
    intro ts rest next hDone
    cases hDone
    exact .refl ts
  stopped := by
    intro ts rest fault hStopped
    cases hStopped

/- No error is passed if nothing is made of one. -/
theorem accept
    {what : Expectation}
    {read : TokenKind → Option β}
    (hRead : ∀ cause, read (.error cause) = none) :
    (Parser.accept what read).Passes 1 levels where
  done := by
    intro ts rest part hDone
    rcases accept_eq_done.mp hDone with
      ⟨t, rfl, hSome, -⟩
    refine ⟨[t], rfl, Nat.le_refl _, ?_⟩
    intro u hMem cause hError
    rw [List.mem_singleton.mp hMem] at hError
    rw [hError, hRead] at hSome
    cases hSome
  stopped := by
    intro ts rest fault hStopped
    rcases stays_of_accept hStopped with ⟨rfl, rfl⟩
    exact ⟨0, .refl rest, nofun⟩

/- A keyword is one token, as are a mark and a name. -/
theorem keyword
    (k : Keyword) :
    (Parser.keyword k).Passes 1 levels :=
  (accept (by simp)).first fun _ => pure _

theorem punct
    (p : Punct) :
    (Parser.punct p).Passes 1 levels :=
  (accept (by simp)).first fun _ => pure _

theorem identifier :
    Parser.identifier.Passes 1 levels :=
  (accept (fun _ => rfl)).first fun _ => pure _

/-
  A literal is one token, whatever is said to be missing.
-/
theorem literal
    (what : Expectation) :
    (Parser.literal what).Passes 1 levels :=
  (accept (fun _ => rfl)).first fun _ => pure _

/- A part that may be missing need not pass anything. -/
theorem whenAt
    {p : Parser α}
    (kind : TokenKind)
    (hPart : p.Passes least levels) :
    (Parser.whenAt kind p).Passes 0 levels := by
  have hAt : (isAt kind).Passes 0 levels :=
    peek.first fun _ => pure _
  refine hAt.first fun isThere => ?_
  cases isThere with
  | false => exact pure none
  | true =>
      exact (hPart.map some).weaken (Nat.le_refl _)

/- Neither need a keyword that may be missing. -/
theorem keyword?
    (k : Keyword) :
    (Parser.keyword? k).Passes 0 levels :=
  (keyword k).whenAt _

theorem punct?
    (p : Punct) :
    (Parser.punct? p).Passes 0 levels :=
  (punct p).whenAt _

------------------------------------------------------------
-- Repetitions
------------------------------------------------------------

/-
  A repetition passes what its steps pass, whatever the
  fuel.
-/
theorem collectWithin
    {missing : Expectation}
    {step : Parser (α ⊕ β)}
    (hStep : step.Passes 0 levels)
    (found : List α)
    (fuel : List Token) :
    (Parser.collectWithin missing step found fuel).Passes 0
      levels := by
  -- The recursion is on the fuel, with any items found.
  induction fuel generalizing found with
  | nil =>
      rw [collectWithin_nil]
      refine hStep.next fun part => ?_
      cases part with
      | inl a => exact ofExpected missing
      | inr b => exact pure (found.reverse, b)
  | cons t fuel ih =>
      rw [collectWithin_cons]
      refine hStep.next fun part => ?_
      cases part with
      | inl a => exact ih (a :: found)
      | inr b => exact pure (found.reverse, b)

/- With a token of fuel for each token it does the same. -/
theorem collect
    {missing : Expectation}
    {step : Parser (α ⊕ β)}
    (hStep : step.Passes 0 levels) :
    (Parser.collect missing step).Passes 0 levels where
  done := fun hDone => (collectWithin hStep [] _).done hDone
  stopped := fun hStopped =>
    (collectWithin hStep [] _).stopped hStopped

------------------------------------------------------------
-- Lists
------------------------------------------------------------

section Lists

variable {item : Parser α}

/- A step up to a mark passes the mark or an item. -/
theorem untilStep
    (hItem : item.Passes 0 levels)
    (close : Punct) :
    (Parser.untilStep close item).Passes 0 levels := by
  refine first (punct? close) fun closed => ?_
  cases closed with
  | some span => exact pure _
  | none => exact hItem.map Sum.inl

/- Items up to a mark pass what their steps pass. -/
theorem itemsUntil
    (hItem : item.Passes 0 levels)
    (close : Punct) :
    (Parser.itemsUntil close item).Passes 0 levels :=
  collect (hItem.untilStep close)

/- A step behind a mark passes it before the item. -/
theorem afterStep
    (hItem : item.Passes 0 levels)
    (mark : Punct) :
    (Parser.afterStep mark item).Passes 0 levels := by
  refine first (punct? mark) fun found => ?_
  cases found with
  | some span => exact hItem.map Sum.inl
  | none => exact pure _

/-
  Items that follow a mark each may be missing altogether.
-/
theorem itemsAfter
    (hItem : item.Passes 0 levels)
    (mark : Punct) :
    (Parser.itemsAfter mark item).Passes 0 levels :=
  first (collect (hItem.afterStep mark)) fun _ => pure _

/- The first of the items between commas has to be there. -/
theorem commaItems
    (hItem : item.Passes 1 levels) :
    (Parser.commaItems item).Passes 1 levels := by
  have hMore := hItem.weaken (Nat.le_refl levels)
  exact hItem.first fun _ =>
    (hMore.itemsAfter .comma).first fun _ => pure _

/- A list that is closed by a mark may have no items. -/
theorem commaList
    (hItem : item.Passes 1 levels)
    (close : Punct) :
    (Parser.commaList close item).Passes 0 levels := by
  refine first (punct? close) fun closed => ?_
  cases closed with
  | some span => exact pure _
  | none =>
      exact hItem.commaItems.next fun _ =>
        (punct close).next fun _ => pure _

end Lists

theorem path :
    Parser.path.Passes 1 levels := by
  have hName := identifier.weaken (Nat.le_refl levels)
  exact identifier.first fun _ =>
    (hName.itemsAfter .colonColon).first fun _ => pure _

/- Type parameters may be missing altogether. -/
theorem typeParams :
    Parser.typeParams.Passes 0 levels := by
  refine first (punct? .leftAngle) fun opened => ?_
  cases opened with
  | none => exact pure _
  | some span =>
      exact identifier.commaItems.next fun _ =>
        (punct .rightAngle).next fun _ => pure _

end Passes

------------------------------------------------------------
-- Items
------------------------------------------------------------

/- A step passes a token before it gives an item. -/
def ItemsAdvance
    (step : Parser (α ⊕ β)) : Prop :=
  ∀ ts rest a,
    step ts = .done (.inl a) rest → Advances 1 ts rest

namespace ItemsAdvance

variable {levels : Nat}
variable {item : Parser α}

/-
  A step up to a mark gives no item without passing a token.
-/
theorem untilStep
    (hItem : item.Passes 1 levels)
    (close : Punct) :
    (untilStep close item).ItemsAdvance := by
  intro ts rest a hDone
  rcases untilStep_eq_done.mp hDone with
    ⟨-, b, hRun, -⟩ | ⟨span, -, hPart⟩
  · exact hItem.done hRun
  · cases hPart

theorem afterStep
    (hItem : item.Passes 1 levels)
    (mark : Punct) :
    (afterStep mark item).ItemsAdvance := by
  intro ts rest a hDone
  rcases afterStep_eq_done.mp hDone with
    ⟨-, hPart, -⟩ | ⟨span, mid, hMark, b, hRun, -⟩
  · cases hPart
  · have hPasses : (punct mark).Passes 1 0 := .punct mark
    have hFirst := hPasses.done hMark
    exact (hFirst.trans (hItem.done hRun)).mono (by omega)

end ItemsAdvance

section Fuel

variable {missing : Expectation}
variable {step : Parser (α ⊕ β)}
variable {found : List α}
variable {fuel ts rest : List Token}

/- A repetition stops where one of its steps does. -/
theorem collectWithin_of_stopped
    {fault : Fault}
    (hStep : step ts = .stopped fault rest) :
    collectWithin missing step found fuel ts =
      .stopped fault rest := by
  cases fuel <;> rw [collectWithin, hStep]

/- It ends with the step that gives the last part. -/
theorem collectWithin_of_last
    {b : β}
    (hStep : step ts = .done (.inr b) rest) :
    collectWithin missing step found fuel ts =
      .done (found.reverse, b) rest := by
  cases fuel <;> rw [collectWithin, hStep]

/- If items advance, a token for each of them is enough. -/
theorem exists_collectWithin_of_item
    {a : α}
    (missing : Expectation)
    (found : List α)
    (hItems : step.ItemsAdvance)
    (hStep : step ts = .done (.inl a) rest)
    (hFuel : ts.length ≤ fuel.length) :
    ∃ less, less.length < fuel.length ∧
      rest.length ≤ less.length ∧
      collectWithin missing step found fuel ts =
        collectWithin missing step (a :: found) less
          rest := by
  have hLess := (hItems ts rest a hStep).length_le
  cases fuel with
  | nil =>
      rw [List.length_nil] at hFuel
      omega
  | cons t less =>
      rw [List.length_cons] at hFuel
      refine ⟨less, Nat.lt_succ_self _, by omega, ?_⟩
      rw [collectWithin, hStep]

/- What was found before stands in front of what is found. -/
theorem collectWithin_eq_map
    (hItems : step.ItemsAdvance)
    (hFuel : ts.length ≤ fuel.length) :
    collectWithin missing step found fuel ts =
      (collect missing step ts).map fun parts =>
        (found.reverse ++ parts.1, parts.2) := by
  -- Both sides are unfolded once, as each item takes fuel.
  induction hLength : fuel.length
    using Nat.strongRecOn generalizing found fuel ts with
  | ind n ih =>
      rw [collect]
      cases hStep : step ts with
      | stopped fault rest =>
          rw [collectWithin_of_stopped hStep,
            collectWithin_of_stopped hStep]
          rfl
      | done part rest =>
          cases part with
          | inr b =>
              rw [collectWithin_of_last hStep,
                collectWithin_of_last hStep]
              simp [Outcome.map]
          | inl a =>
              rcases exists_collectWithin_of_item missing
                  found hItems hStep hFuel with
                ⟨less, hLess, hEnough, hRun⟩
              rcases exists_collectWithin_of_item missing
                  ([] : List α) hItems hStep
                  (Nat.le_refl _) with
                ⟨less', hLess', hEnough', hRun'⟩
              rw [hRun, hRun',
                ih _ (hLength ▸ hLess) hEnough rfl,
                ih _ (by omega) hEnough' rfl]
              cases collect missing step rest <;>
                simp [Outcome.map]

end Fuel

end Parser

end FeSyntax
