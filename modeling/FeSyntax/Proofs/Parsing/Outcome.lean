import FeSyntax.Parse.Piece

/-
  This file says when the parsers that all others are built
  of are done: with which value, and at which tokens.  Some
  lemmas also say where they stop.  All later proofs take a
  parser apart with these lemmas.

  Key definitions include:
    * `nextKind`
    * `Outcome.map`
    * `Parser.Steps`
    * `Parser.untilStep`
    * `Parser.afterStep`

  Key theorems include:
    * `Parser.bind_eq_done`
    * `Parser.bind_eq_stopped`
    * `Parser.token_eq_done`
    * `Parser.whenAt_eq_done`
    * `Parser.collectWithin_cons`
    * `Parser.collect_eq_done`
    * `Parser.itemsUntil_eq_done`
    * `Parser.itemsAfter_eq_done`
-/

namespace FeSyntax

/- The kind of the first token; none at the end. -/
def nextKind
    (ts : List Token) : Option TokenKind :=
  ts.head?.map Token.kind

/- In front of other tokens, a token is the next one. -/
@[simp] theorem nextKind_cons
    (t : Token)
    (ts : List Token) :
    nextKind (t :: ts) = some t.kind :=
  rfl

/- The outcome with its value changed, if it has one. -/
def Outcome.map
    {α β : Type}
    (f : α → β) : Outcome α → Outcome β
  | done a rest => done (f a) rest
  | stopped fault rest => stopped fault rest

namespace Parser

variable {α β : Type}
variable {ts rest : List Token}

------------------------------------------------------------
-- Sequences
------------------------------------------------------------

/- A parser behind another starts where that one is done. -/
theorem bind_eq_andThen
    (p : Parser α)
    (f : α → Parser β)
    (ts : List Token) :
    (p >>= f) ts = andThen p f ts :=
  rfl

/-
  Two parsers in sequence are done if the first one is, and
  the second one is behind it.
-/
theorem bind_eq_done
    {p : Parser α}
    {f : α → Parser β}
    {b : β} :
    (p >>= f) ts = .done b rest ↔
      ∃ a mid, p ts = .done a mid ∧
        f a mid = .done b rest := by
  rw [bind_eq_andThen, andThen]
  cases p ts with
  | done a mid =>
      constructor
      · intro hDone
        exact ⟨a, mid, rfl, hDone⟩
      · intro hRun
        rcases hRun with ⟨a', mid', hSame, hDone⟩
        cases hSame
        exact hDone
  | stopped fault mid => simp

/- The first of two parsers stops, or the second does. -/
theorem bind_eq_stopped
    {p : Parser α}
    {f : α → Parser β}
    {fault : Fault} :
    (p >>= f) ts = .stopped fault rest ↔
      p ts = .stopped fault rest ∨
        ∃ a mid, p ts = .done a mid ∧
          f a mid = .stopped fault rest := by
  rw [bind_eq_andThen, andThen]
  cases p ts with
  | done a mid =>
      constructor
      · exact fun hStopped => .inr ⟨a, mid, rfl, hStopped⟩
      · intro hRun
        rcases hRun with
          hFirst | ⟨a', mid', hSame, hStopped⟩
        · cases hFirst
        · cases hSame
          exact hStopped
  | stopped fault' mid => simp

theorem pure_eq_done
    {a b : α} :
    (pure a : Parser α) ts = .done b rest ↔
      a = b ∧ ts = rest := by
  have hRun : (pure a : Parser α) ts = .done a ts := rfl
  rw [hRun, Outcome.done.injEq]

/-
  A value that is changed was given before, at the same
  place.
-/
theorem map_eq_done
    {f : α → β}
    {p : Parser α}
    {b : β} :
    (f <$> p) ts = .done b rest ↔
      ∃ a, p ts = .done a rest ∧ f a = b := by
  have hRun : (f <$> p) = p >>= fun a => pure (f a) := rfl
  rw [hRun, bind_eq_done]
  constructor
  · intro hRun
    rcases hRun with ⟨a, mid, hParse, hPure⟩
    rcases pure_eq_done.mp hPure with ⟨hValue, rfl⟩
    exact ⟨a, hParse, hValue⟩
  · intro hRun
    rcases hRun with ⟨a, hParse, hValue⟩
    exact ⟨a, rest, hParse, pure_eq_done.mpr ⟨hValue, rfl⟩⟩

/-
  So a function of the value changes the outcome and nothing
  else.
-/
theorem map_eq_map
    (f : α → β)
    (p : Parser α)
    (ts : List Token) :
    (f <$> p) ts = (p ts).map f := by
  have hRun :
      (f <$> p) ts = andThen p (fun a => pure (f a)) ts :=
    rfl
  rw [hRun, andThen]
  cases p ts <;> rfl

theorem fail_ne_done
    {fault : Fault}
    {a : α} :
    (fail fault : Parser α) ts ≠ .done a rest := by
  intro hParse
  cases hParse

/- To look at the next token is to take none. -/
theorem peek_eq_done
    {next : Option TokenKind} :
    peek ts = .done next rest ↔
      nextKind ts = next ∧ ts = rest := by
  rw [peek, Outcome.done.injEq]
  rfl

------------------------------------------------------------
-- Single Tokens
------------------------------------------------------------

/- A token is accepted if something is made of its kind. -/
theorem accept_eq_done
    {what : Expectation}
    {read : TokenKind → Option β}
    {b : β}
    {span : Span} :
    accept what read ts = .done (b, span) rest ↔
      ∃ t, ts = t :: rest ∧ read t.kind = some b ∧
        t.span = span := by
  cases ts with
  | nil => simp [accept]
  | cons t ts =>
      cases hRead : read t.kind with
      | none =>
          have hRun :
              accept what read (t :: ts) =
                .stopped (.expected what) (t :: ts) := by
            simp only [accept, hRead]
          rw [hRun]
          constructor
          · intro hStopped
            cases hStopped
          · intro hRun
            rcases hRun with ⟨u, hTokens, hSome, -⟩
            cases hTokens
            rw [hRead] at hSome
            cases hSome
      | some c =>
          have hRun :
              accept what read (t :: ts) =
                .done (c, t.span) ts := by
            simp only [accept, hRead]
          rw [hRun]
          constructor
          · intro hDone
            cases hDone
            exact ⟨t, rfl, hRead, rfl⟩
          · intro hRun
            rcases hRun with ⟨u, hTokens, hSome, rfl⟩
            cases hTokens
            rw [hRead] at hSome
            cases hSome
            rfl

/- A token that is not passed is where the parser stops. -/
theorem stays_of_accept
    {what : Expectation}
    {read : TokenKind → Option β}
    {fault : Fault}
    (hStopped : accept what read ts = .stopped fault rest) :
    fault = .expected what ∧ rest = ts := by
  cases ts with
  | nil =>
      cases hStopped
      exact ⟨rfl, rfl⟩
  | cons t ts =>
      rw [accept] at hStopped
      cases hRead : read t.kind with
      | none =>
          rw [hRead] at hStopped
          cases hStopped
          exact ⟨rfl, rfl⟩
      | some b =>
          rw [hRead] at hStopped
          cases hStopped

/- A fixed token is passed if it is the next one. -/
theorem token_eq_done
    {what : Expectation}
    {kind : TokenKind}
    {span : Span} :
    token what kind ts = .done span rest ↔
      ∃ t, ts = t :: rest ∧ t.kind = kind ∧
        t.span = span := by
  simp only [token, bind_eq_done, pure_eq_done, Prod.exists,
    accept_eq_done]
  constructor
  · intro hRun
    rcases hRun with
      ⟨_, _, _, ⟨t, rfl, hRead, rfl⟩, rfl, rfl⟩
    have hKind : t.kind = kind := by
      by_cases hEq : t.kind = kind
      · exact hEq
      · simp [hEq] at hRead
    exact ⟨t, rfl, hKind, rfl⟩
  · intro hRun
    rcases hRun with ⟨t, rfl, rfl, rfl⟩
    exact
      ⟨(), t.span, rest, ⟨t, rfl, by simp, rfl⟩, rfl, rfl⟩

/- A token that can be passed is the next one. -/
theorem nextKind_of_token
    {what : Expectation}
    {kind : TokenKind}
    {span : Span}
    (hParse : token what kind ts = .done span rest) :
    nextKind ts = some kind := by
  rcases token_eq_done.mp hParse with ⟨t, rfl, hKind, -⟩
  rw [nextKind_cons, hKind]

/- A mark that was passed was the next token. -/
theorem nextKind_of_punct
    {p : Punct}
    {span : Span}
    (hParse : punct p ts = .done span rest) :
    nextKind ts = some (.punct p) :=
  nextKind_of_token hParse

/- To ask for the next kind is to take no token. -/
theorem isAt_eq_done
    {kind : TokenKind}
    {b : Bool} :
    isAt kind ts = .done b rest ↔
      decide (nextKind ts = some kind) = b ∧ ts = rest := by
  simp only [isAt, bind_eq_done, pure_eq_done, peek_eq_done]
  constructor
  · intro hRun
    rcases hRun with ⟨_, _, ⟨rfl, rfl⟩, rfl, rfl⟩
    exact ⟨rfl, rfl⟩
  · intro hRun
    rcases hRun with ⟨rfl, rfl⟩
    exact ⟨_, _, ⟨rfl, rfl⟩, rfl, rfl⟩

------------------------------------------------------------
-- Optional Parts
------------------------------------------------------------

/-
  A part that a kind leads to is read if that kind is next,
  and is missing if not.
-/
theorem whenAt_eq_done
    {kind : TokenKind}
    {p : Parser α}
    {o : Option α} :
    whenAt kind p ts = .done o rest ↔
      (nextKind ts ≠ some kind ∧ o = none ∧ ts = rest) ∨
      (nextKind ts = some kind ∧
        ∃ a, p ts = .done a rest ∧ o = some a) := by
  simp only [whenAt, bind_eq_done, isAt_eq_done]
  by_cases hNext : nextKind ts = some kind
  · constructor
    · intro hRun
      rcases hRun with ⟨_, _, ⟨rfl, rfl⟩, hRest⟩
      rw [if_pos (by simpa using hNext),
        map_eq_done] at hRest
      rcases hRest with ⟨a, hParse, rfl⟩
      exact .inr ⟨hNext, a, hParse, rfl⟩
    · intro hRun
      rcases hRun with ⟨hNot, -⟩ | ⟨-, a, hParse, rfl⟩
      · exact absurd hNext hNot
      · refine ⟨true, ts, ⟨by simpa using hNext, rfl⟩, ?_⟩
        rw [if_pos rfl, map_eq_done]
        exact ⟨a, hParse, rfl⟩
  · constructor
    · intro hRun
      rcases hRun with ⟨_, _, ⟨rfl, rfl⟩, hRest⟩
      rw [if_neg (by simpa using hNext),
        pure_eq_done] at hRest
      exact .inl ⟨hNext, hRest.1.symm, hRest.2⟩
    · intro hRun
      rcases hRun with ⟨-, rfl, rfl⟩ | ⟨hYes, -⟩
      · refine ⟨false, ts, ⟨by simpa using hNext, rfl⟩, ?_⟩
        rw [if_neg (by simp), pure_eq_done]
        exact ⟨rfl, rfl⟩
      · exact absurd hYes hNext

/-
  It stops only where the part does, once the kind is next.
-/
theorem whenAt_eq_stopped
    {kind : TokenKind}
    {p : Parser α}
    {fault : Fault} :
    whenAt kind p ts = .stopped fault rest ↔
      nextKind ts = some kind ∧
        p ts = .stopped fault rest := by
  have hRun :
      whenAt kind p ts =
        (if decide (nextKind ts = some kind) = true then
            p >>= fun a => pure (some a)
          else pure none) ts :=
    rfl
  rw [hRun]
  by_cases hNext : nextKind ts = some kind
  · rw [if_pos (by simpa using hNext), bind_eq_stopped]
    constructor
    · intro hStopped
      rcases hStopped with hPart | ⟨_, _, -, hPure⟩
      · exact ⟨hNext, hPart⟩
      · cases hPure
    · exact fun hStopped => .inl hStopped.2
  · rw [if_neg (by simpa using hNext)]
    constructor
    · intro hPure
      cases hPure
    · exact fun hStopped => absurd hStopped.1 hNext

------------------------------------------------------------
-- Repetitions
------------------------------------------------------------

/-
  A step that is repeated gives some items in turn, and then
  the last part.
-/
inductive Steps
    (step : Parser (α ⊕ β)) :
    List Token → List α → β → List Token → Prop where
  | last
      {ts rest : List Token}
      {b : β}
      (hStep : step ts = .done (.inr b) rest) :
      Steps step ts [] b rest
  | item
      {ts mid rest : List Token}
      {a : α}
      {as : List α}
      {b : β}
      (hStep : step ts = .done (.inl a) mid)
      (hMore : Steps step mid as b rest) :
      Steps step ts (a :: as) b rest

/- The last step is the one that gives the last part. -/
theorem Steps.exists_last
    {step : Parser (α ⊕ β)}
    {as : List α}
    {b : β}
    (hSteps : Steps step ts as b rest) :
    ∃ mid, step mid = .done (.inr b) rest := by
  induction hSteps with
  | @last ts _ _ hStep => exact ⟨ts, hStep⟩
  | item hStep hMore ih => exact ih

section Unfold

variable (missing : Expectation)
variable (step : Parser (α ⊕ β))
variable (found : List α)

/- Without fuel, the next step has to give the last part. -/
theorem collectWithin_nil :
    collectWithin missing step found [] =
      step >>= Sum.elim
        (fun _ => fail (.expected missing))
        (fun b => pure (found.reverse, b)) := by
  funext ts
  rw [bind_eq_andThen, collectWithin, andThen]
  rcases step ts with ⟨a | b, mid⟩ | ⟨fault, mid⟩ <;> rfl

/- With fuel, a step that gives an item is repeated. -/
theorem collectWithin_cons
    (t : Token)
    (fuel : List Token) :
    collectWithin missing step found (t :: fuel) =
      step >>= Sum.elim
        (fun a =>
          collectWithin missing step (a :: found) fuel)
        (fun b => pure (found.reverse, b)) := by
  funext ts
  rw [bind_eq_andThen, collectWithin, andThen]
  rcases step ts with ⟨a | b, mid⟩ | ⟨fault, mid⟩ <;> rfl

end Unfold

/- The fuel bounds the number of items that are added. -/
theorem collectWithin_eq_done
    {missing : Expectation}
    {step : Parser (α ⊕ β)}
    {found as : List α}
    {fuel : List Token}
    {b : β} :
    collectWithin missing step found fuel ts =
        .done (as, b) rest ↔
      ∃ more, as = found.reverse ++ more ∧
        more.length ≤ fuel.length ∧
        Steps step ts more b rest := by
  -- The recursion is on the fuel, with any items found.
  induction fuel generalizing found ts with
  | nil =>
      rw [collectWithin_nil, bind_eq_done]
      constructor
      · intro hRun
        rcases hRun with ⟨a | last, mid, hStep, hEnd⟩
        · cases hEnd
        · cases hEnd
          exact
            ⟨[], by simp, Nat.le_refl _, .last hStep⟩
      · intro hRun
        rcases hRun with ⟨more, rfl, hLength, hSteps⟩
        cases hSteps with
        | last hStep =>
            refine ⟨.inr b, rest, hStep, ?_⟩
            rw [List.append_nil]
            rfl
        | item hStep hMore => simp at hLength
  | cons t fuel ih =>
      rw [collectWithin_cons, bind_eq_done]
      constructor
      · intro hRun
        rcases hRun with ⟨a | last, mid, hStep, hEnd⟩
        · rcases ih.mp hEnd with
            ⟨more, rfl, hLength, hMore⟩
          exact
            ⟨a :: more, by simp,
              Nat.succ_le_succ hLength, .item hStep hMore⟩
        · cases hEnd
          exact
            ⟨[], by simp, Nat.zero_le _, .last hStep⟩
      · intro hRun
        rcases hRun with ⟨more, rfl, hLength, hSteps⟩
        cases hSteps with
        | last hStep =>
            refine ⟨.inr b, rest, hStep, ?_⟩
            rw [List.append_nil]
            rfl
        | @item _ mid _ a _ _ hStep hMore =>
            refine ⟨.inl a, mid, hStep, ?_⟩
            refine ih.mpr ⟨_, by simp, ?_, hMore⟩
            exact Nat.le_of_succ_le_succ hLength

/-
  A repetition is done if steps lead to its last part, which
  the fuel always allows.
-/
theorem collect_eq_done
    {missing : Expectation}
    {step : Parser (α ⊕ β)}
    {as : List α}
    {b : β} :
    collect missing step ts = .done (as, b) rest ↔
      as.length ≤ ts.length ∧ Steps step ts as b rest := by
  rw [collect, collectWithin_eq_done]
  constructor
  · intro hRun
    rcases hRun with ⟨more, rfl, hLength, hSteps⟩
    exact ⟨hLength, hSteps⟩
  · intro hRun
    rcases hRun with ⟨hLength, hSteps⟩
    exact ⟨as, rfl, hLength, hSteps⟩

------------------------------------------------------------
-- Steps Of Lists
------------------------------------------------------------

/- A closing mark, or else an item. -/
def untilStep
    (close : Punct)
    (item : Parser α) : Parser (α ⊕ Span) := do
  match ← punct? close with
  | some span => pure (.inr span)
  | none => .inl <$> item

/- A mark with an item behind it, or else nothing. -/
def afterStep
    (mark : Punct)
    (item : Parser α) : Parser (α ⊕ Unit) := do
  match ← punct? mark with
  | some _ => .inl <$> item
  | none => pure (.inr ())

section Lists

variable {mark : Punct}
variable {item : Parser α}

/-
  A mark that may be missing is passed if it is the next
  token.
-/
theorem punct?_eq_done
    {o : Option Span} :
    punct? mark ts = .done o rest ↔
      (nextKind ts ≠ some (.punct mark) ∧ o = none ∧
        ts = rest) ∨
      ∃ span, punct mark ts = .done span rest ∧
        o = some span := by
  rw [punct?, whenAt_eq_done]
  refine or_congr_right ⟨And.right, ?_⟩
  intro hRun
  rcases hRun with ⟨span, hMark, rfl⟩
  exact ⟨nextKind_of_punct hMark, span, hMark, rfl⟩

/-
  A step up to a mark is one more item, or the mark itself.
-/
theorem untilStep_eq_done
    {part : α ⊕ Span} :
    untilStep mark item ts = .done part rest ↔
      (nextKind ts ≠ some (.punct mark) ∧
        ∃ a, item ts = .done a rest ∧ part = .inl a) ∨
      ∃ span, punct mark ts = .done span rest ∧
        part = .inr span := by
  rw [untilStep, bind_eq_done]
  constructor
  · intro hRun
    rcases hRun with ⟨o, mid, hParse, hPart⟩
    rcases punct?_eq_done.mp hParse with
      ⟨hNext, rfl, rfl⟩ | ⟨span, hMark, rfl⟩
    · rcases map_eq_done.mp hPart with ⟨a, hItem, rfl⟩
      exact .inl ⟨hNext, a, hItem, rfl⟩
    · rcases pure_eq_done.mp hPart with ⟨rfl, rfl⟩
      exact .inr ⟨span, hMark, rfl⟩
  · intro hRun
    rcases hRun with
      ⟨hNext, a, hItem, rfl⟩ | ⟨span, hMark, rfl⟩
    · exact
        ⟨none, ts,
          punct?_eq_done.mpr (.inl ⟨hNext, rfl, rfl⟩),
          map_eq_done.mpr ⟨a, hItem, rfl⟩⟩
    · exact
        ⟨some span, rest,
          punct?_eq_done.mpr (.inr ⟨span, hMark, rfl⟩),
          pure_eq_done.mpr ⟨rfl, rfl⟩⟩

/-
  A step behind a mark is one more item with the mark in
  front, or the end.
-/
theorem afterStep_eq_done
    {part : α ⊕ Unit} :
    afterStep mark item ts = .done part rest ↔
      (nextKind ts ≠ some (.punct mark) ∧ part = .inr () ∧
        ts = rest) ∨
      ∃ span mid, punct mark ts = .done span mid ∧
        ∃ a, item mid = .done a rest ∧ part = .inl a := by
  rw [afterStep, bind_eq_done]
  constructor
  · intro hRun
    rcases hRun with ⟨o, mid, hParse, hPart⟩
    rcases punct?_eq_done.mp hParse with
      ⟨hNext, rfl, rfl⟩ | ⟨span, hMark, rfl⟩
    · rcases pure_eq_done.mp hPart with ⟨rfl, rfl⟩
      exact .inl ⟨hNext, rfl, rfl⟩
    · rcases map_eq_done.mp hPart with ⟨a, hItem, rfl⟩
      exact .inr ⟨span, mid, hMark, a, hItem, rfl⟩
  · intro hRun
    rcases hRun with
      ⟨hNext, rfl, rfl⟩ | ⟨span, mid, hMark, a, hItem, rfl⟩
    · exact
        ⟨none, ts,
          punct?_eq_done.mpr (.inl ⟨hNext, rfl, rfl⟩),
          pure_eq_done.mpr ⟨rfl, rfl⟩⟩
    · exact
        ⟨some span, mid,
          punct?_eq_done.mpr (.inr ⟨span, hMark, rfl⟩),
          map_eq_done.mpr ⟨a, hItem, rfl⟩⟩

/- Items up to a mark are read by such steps. -/
theorem itemsUntil_eq_done
    {as : List α}
    {span : Span} :
    itemsUntil mark item ts = .done (as, span) rest ↔
      as.length ≤ ts.length ∧
        Steps (untilStep mark item) ts as span rest :=
  collect_eq_done

theorem itemsAfter_eq_done
    {as : List α} :
    itemsAfter mark item ts = .done as rest ↔
      as.length ≤ ts.length ∧
        Steps (afterStep mark item) ts as () rest := by
  have hRun :
      itemsAfter mark item =
        collect (.punct mark) (afterStep mark item) >>=
          fun parts => pure parts.1 :=
    rfl
  rw [hRun, bind_eq_done]
  constructor
  · intro hRun
    rcases hRun with ⟨⟨as', _⟩, mid, hParts, hPure⟩
    rcases pure_eq_done.mp hPure with ⟨rfl, rfl⟩
    exact collect_eq_done.mp hParts
  · intro hSteps
    exact
      ⟨(as, ()), rest, collect_eq_done.mpr hSteps,
        pure_eq_done.mpr ⟨rfl, rfl⟩⟩

end Lists

end Parser

end FeSyntax
