import FeSyntax.Proofs.Parsing.Outcome
import FeSyntax.Proofs.Syntax.Relocation

/-
  This file says that a parser does the same on the run of
  tokens that it has passed wherever that run stands.  With
  the run in another place its value is the same there, and
  what may follow is anything, or anything with the same
  kind in front if the parser looked at that.

  Key definitions include:
    * `Placed`
    * `SameFront`
    * `RunMoves`
    * `Parser.Replays`
    * `Parser.StepReplays`

  Key theorems include:
    * `RunMoves.append`
    * `Parser.Replays.bind`
    * `Parser.Replays.punct?_bind`
    * `Parser.StepReplays.collect`
    * `Parser.Replays.commaList`
-/

namespace FeSyntax

------------------------------------------------------------
-- Values In Other Places
------------------------------------------------------------

/- The values of parsers have spans that can be changed. -/
class Placed (α : Type) where
  move : Relocation → α → α

namespace Placed

variable {α β : Type}
variable [Placed α] [Placed β]

instance : Placed Span :=
  ⟨fun r => r.span⟩

instance : Placed Unit :=
  ⟨fun _ => id⟩

instance : Placed (Option α) :=
  ⟨fun r => Option.map (move r)⟩

instance : Placed (List α) :=
  ⟨fun r => List.map (move r)⟩

instance : Placed (α × β) :=
  ⟨fun r => Prod.map (move r) (move r)⟩

instance : Placed (α ⊕ β) :=
  ⟨fun r => Sum.map (move r) (move r)⟩

end Placed

open Placed

------------------------------------------------------------
-- Fronts Of Runs
------------------------------------------------------------

/-
  What may stand in the place of `rest` behind a parser that
  has looked at the kind in front of it.
-/
def SameFront
    (rest rest' : List Token) : Prop :=
  rest' = [] ∨ nextKind rest' = nextKind rest

/- A kind that is not in front does not get there. -/
theorem SameFront.ne
    {rest rest' : List Token}
    {kind : TokenKind}
    (hFront : SameFront rest rest')
    (hOther : nextKind rest ≠ some kind) :
    nextKind rest' ≠ some kind := by
  rcases hFront with rfl | hSame
  · simp [nextKind]
  · rw [hSame]
    exact hOther

/- A run in front keeps its kinds in another place. -/
theorem nextKind_moved
    {r : Relocation}
    {run : List Token}
    (hRun : run ≠ [])
    (rest rest' : List Token) :
    nextKind (run.map r.token ++ rest') =
      nextKind (run ++ rest) := by
  cases run with
  | nil => exact absurd rfl hRun
  | cons t run => rfl

/-
  A run that is not empty is its own front; behind an empty
  run, what follows is.
-/
theorem sameFront_moved
    {r : Relocation}
    {run rest rest' : List Token}
    (hFront : run ≠ [] ∨ SameFront rest rest') :
    SameFront (run ++ rest) (run.map r.token ++ rest') := by
  by_cases hEmpty : run = []
  · subst hEmpty
    exact hFront.resolve_left fun hSome => hSome rfl
  · exact .inr (nextKind_moved hEmpty rest rest')

------------------------------------------------------------
-- Runs In Other Places
------------------------------------------------------------

/-
  The run in front of `rest` can be moved to another place,
  where `reads` relates it and what follows to what follows.
  If `passes` holds the run is not empty, and if `looks`
  does not hold, then anything may follow.
-/
def RunMoves
    (r : Relocation)
    (passes looks : Bool)
    (ts rest : List Token)
    (reads : List Token → List Token → Prop) : Prop :=
  ∃ run, ts = run ++ rest ∧
    (passes = true → run ≠ []) ∧
    ∀ rest', (looks = true → SameFront rest rest') →
      reads (run.map r.token ++ rest') rest'

namespace RunMoves

variable {r : Relocation}
variable {passes passes' looks looks' : Bool}
variable {ts mid rest : List Token}
variable {reads reads' both : List Token → List Token → Prop}

/- Nothing is passed. -/
theorem here
    (hReads :
      ∀ rest', (looks = true → SameFront rest rest') →
        reads rest' rest') :
    RunMoves r false looks rest rest reads :=
  ⟨[], rfl, Bool.noConfusion, hReads⟩

theorem mono
    (hRun : RunMoves r passes looks ts rest reads)
    (hPasses : passes' = true → passes = true)
    (hLooks : looks = true → looks' = true)
    (hReads : ∀ us ws, reads us ws → reads' us ws) :
    RunMoves r passes' looks' ts rest reads' := by
  rcases hRun with ⟨run, hTokens, hSome, hMoved⟩
  exact
    ⟨run, hTokens, hSome ∘ hPasses, fun rest' hRest =>
      hReads _ _ (hMoved rest' (hRest ∘ hLooks))⟩

/- Something else is read, and no less is known. -/
theorem imp
    (hRun : RunMoves r passes looks ts rest reads)
    (hReads : ∀ us ws, reads us ws → reads' us ws) :
    RunMoves r passes looks ts rest reads' :=
  hRun.mono id id hReads

/-
  Runs stand one behind the other.  Where the first one is
  followed by a look ahead, this sees the second run, or
  what the second run is followed by.
-/
theorem append
    (hFirst : RunMoves r passes looks ts mid reads)
    (hSecond : RunMoves r passes' looks' mid rest reads')
    (hSeam : looks = true → looks' = true ∨ passes' = true)
    (hBoth :
      ∀ us vs ws, reads us vs → reads' vs ws → both us ws) :
    RunMoves r (passes || passes') looks' ts rest both := by
  rcases hFirst with ⟨run, rfl, hSome, hRun⟩
  rcases hSecond with ⟨more, rfl, hSome', hMore⟩
  refine
    ⟨run ++ more, (List.append_assoc _ _ _).symm, ?_, ?_⟩
  · intro hPasses hNil
    rcases List.append_eq_nil_iff.mp hNil with ⟨hRun, hMore⟩
    rcases Bool.or_eq_true_iff.mp hPasses with hLeft | hRight
    · exact hSome hLeft hRun
    · exact hSome' hRight hMore
  · intro rest' hRest
    rw [List.map_append, List.append_assoc]
    refine hBoth _ _ _ (hRun _ fun hLooks => ?_)
      (hMore rest' hRest)
    exact sameFront_moved
      ((hSeam hLooks).symm.imp hSome' hRest)

/- The first kind of a run stays in front. -/
theorem kind
    (hRun : RunMoves r true looks ts rest reads) :
    RunMoves r true looks ts rest fun us ws =>
      nextKind us = nextKind ts ∧ reads us ws := by
  rcases hRun with ⟨run, rfl, hSome, hMoved⟩
  exact
    ⟨run, rfl, hSome, fun rest' hRest =>
      ⟨nextKind_moved (hSome rfl) rest rest',
        hMoved rest' hRest⟩⟩

/- A run that passes nothing shows what follows. -/
theorem front
    (hRun : RunMoves r passes looks ts rest reads)
    (hSeam : looks = true ∨ passes = true) :
    RunMoves r passes looks ts rest fun us ws =>
      SameFront ts us ∧ reads us ws := by
  rcases hRun with ⟨run, rfl, hSome, hMoved⟩
  exact
    ⟨run, rfl, hSome, fun rest' hRest =>
      ⟨sameFront_moved (hSeam.symm.imp hSome hRest),
        hMoved rest' hRest⟩⟩

/- Behind a run that passes a token there are fewer. -/
theorem shorter
    (hRun : RunMoves r true looks ts rest reads) :
    RunMoves r true looks ts rest fun us ws =>
      ws.length < us.length ∧ reads us ws := by
  rcases hRun with ⟨run, rfl, hSome, hMoved⟩
  refine
    ⟨run, rfl, hSome, fun rest' hRest =>
      ⟨?_, hMoved rest' hRest⟩⟩
  have hPositive := List.length_pos_iff.mpr (hSome rfl)
  rw [List.length_append, List.length_map]
  omega

end RunMoves

namespace Parser

variable {α β : Type}
variable [Placed α] [Placed β]

/-
  Whenever the first parser is done, the second one reads
  the same run in its other place, as the same value there.
-/
def Replays
    (r : Relocation)
    (passes looks : Bool)
    (p q : Parser α) : Prop :=
  ∀ ⦃ts rest a⦄, p ts = .done a rest →
    RunMoves r passes looks ts rest fun us ws =>
      q us = .done (move r a) ws

namespace Replays

variable {r : Relocation}
variable {passes passes' looks looks' : Bool}

------------------------------------------------------------
-- Sequences
------------------------------------------------------------

/- Tokens behind those that a parser sees change nothing. -/
theorem extend
    {p : Parser α}
    {ts rest : List Token}
    {a : α}
    (hParser : p.Replays .identity passes false p)
    (hDone : p ts = .done a rest)
    (more : List Token) :
    p (ts ++ more) = .done a (rest ++ more) := by
  rcases hParser hDone with ⟨run, rfl, -, hRun⟩
  rw [Relocation.map_token_identity] at hRun
  have hSame :
      p (run ++ rest) = .done (move .identity a) rest :=
    hRun rest Bool.noConfusion
  have hMore :
      p (run ++ (rest ++ more)) =
        .done (move .identity a) (rest ++ more) :=
    hRun (rest ++ more) Bool.noConfusion
  rw [hDone, Outcome.done.injEq] at hSame
  rw [List.append_assoc, hMore, ← hSame.1]

/- Less is known of a parser that may look ahead. -/
theorem loose
    {p q : Parser α}
    (hParser : p.Replays r passes looks q) :
    p.Replays r passes true q :=
  fun _ _ _ hDone =>
    (hParser hDone).mono id (fun _ => rfl) fun _ _ => id

/-
  A value alone is made anywhere, if it is the moved one.
-/
theorem pure
    {a b : α}
    (hValue : b = move r a) :
    Replays r false looks (Pure.pure a : Parser α)
      (Pure.pure b) := by
  intro ts rest a' hDone
  cases hDone
  rw [hValue]
  exact .here fun rest' _ => rfl

/-
  A parser that fails is never done, so nothing has to be
  read again.
-/
theorem fail
    {q : Parser α}
    (fault : Fault) :
    (Parser.fail fault).Replays r passes looks q := by
  intro ts rest a hDone
  cases hDone

/-
  Runs of two parsers stand one behind the other, if the
  first one looks at the second run or at nothing behind it.
-/
theorem bind
    {p q : Parser α}
    {f g : α → Parser β}
    (hParser : p.Replays r passes looks q)
    (hNext :
      ∀ a, (f a).Replays r passes' looks' (g (move r a)))
    (hSeam :
      looks = true → looks' = true ∨ passes' = true) :
    (p >>= f).Replays r (passes || passes') looks'
      (q >>= g) := by
  intro ts rest b hDone
  rcases bind_eq_done.mp hDone with
    ⟨a, mid, hFirst, hSecond⟩
  exact
    (hParser hFirst).append (hNext a hSecond) hSeam
      fun _ vs _ hLeft hRight =>
        bind_eq_done.mpr ⟨move r a, vs, hLeft, hRight⟩

/- Anything may follow what comes first. -/
theorem first
    {p q : Parser α}
    {f g : α → Parser β}
    (hParser : p.Replays r true false q)
    (hNext :
      ∀ a, (f a).Replays r passes looks (g (move r a))) :
    (p >>= f).Replays r true looks (q >>= g) :=
  hParser.bind hNext Bool.noConfusion

/- What comes first looks at what passes a token. -/
theorem before
    {p q : Parser α}
    {f g : α → Parser β}
    (hParser : p.Replays r passes looks q)
    (hNext :
      ∀ a, (f a).Replays r true looks' (g (move r a))) :
    (p >>= f).Replays r true looks' (q >>= g) := by
  have hBoth := hParser.bind hNext fun _ => .inr rfl
  rw [Bool.or_true] at hBoth
  exact hBoth

/- What comes first looks as far as what comes next. -/
theorem next
    {p q : Parser α}
    {f g : α → Parser β}
    (hParser : p.Replays r true true q)
    (hNext :
      ∀ a, (f a).Replays r false true (g (move r a))) :
    (p >>= f).Replays r true true (q >>= g) :=
  hParser.bind hNext fun _ => .inl rfl

/- Nothing but a value is made in the end. -/
theorem last
    {p q : Parser α}
    {f g : α → Parser β}
    (hParser : p.Replays r passes looks q)
    (hNext :
      ∀ a, (f a).Replays r false looks (g (move r a))) :
    (p >>= f).Replays r passes looks (q >>= g) := by
  have hBoth := hParser.bind hNext Or.inl
  rw [Bool.or_false] at hBoth
  exact hBoth

/- A function of the value has to go along with the move. -/
theorem map
    {p q : Parser α}
    {f g : α → β}
    (hParser : p.Replays r passes looks q)
    (hValue : ∀ a, g (move r a) = move r (f a)) :
    (f <$> p).Replays r passes looks (g <$> q) :=
  hParser.last fun a => pure (hValue a)

/- The kind that leads the way is the first of the run. -/
theorem peek_bind
    {f g : Option TokenKind → Parser α}
    (hNext : ∀ k, (f k).Replays r true looks (g k)) :
    (peek >>= f).Replays r true looks (peek >>= g) := by
  intro ts rest a hDone
  refine (hNext _ hDone).kind.imp fun us ws hRun => ?_
  rcases hRun with ⟨hKind, hRun⟩
  have hPeek : (peek >>= g) us = g (nextKind us) us := rfl
  rw [hPeek, hKind]
  exact hRun

/-
  To ask for the next kind is to ask for the first kind of
  the run.
-/
theorem isAt_bind
    {kind : TokenKind}
    {f g : Bool → Parser α}
    (hNext : ∀ b, (f b).Replays r true looks (g b)) :
    (isAt kind >>= f).Replays r true looks
      (isAt kind >>= g) :=
  peek_bind (f := fun k => f (decide (k = some kind)))
    (g := fun k => g (decide (k = some kind)))
    fun _ => hNext _

------------------------------------------------------------
-- Single Tokens
------------------------------------------------------------

/-
  A token that is accepted has its kind in any place, and
  the moved span.
-/
theorem accept_bind
    {γ : Type}
    {what : Expectation}
    {read : TokenKind → Option γ}
    {f g : γ × Span → Parser α}
    (hNext :
      ∀ c s,
        (f (c, s)).Replays r passes false
          (g (c, r.span s))) :
    (accept what read >>= f).Replays r true looks
      (accept what read >>= g) := by
  intro ts rest a hDone
  rcases bind_eq_done.mp hDone with
    ⟨⟨c, s⟩, mid, hToken, hRest⟩
  rcases accept_eq_done.mp hToken with ⟨t, rfl, hRead, rfl⟩
  rcases hNext c t.span hRest with ⟨run, rfl, -, hRun⟩
  refine
    ⟨t :: run, rfl, fun _ => List.cons_ne_nil t run,
      fun rest' _ => ?_⟩
  exact bind_eq_done.mpr
    ⟨(c, r.span t.span), _,
      accept_eq_done.mpr ⟨r.token t, rfl, hRead, rfl⟩,
      hRun rest' Bool.noConfusion⟩

theorem token
    {what : Expectation}
    {kind : TokenKind} :
    (Parser.token what kind).Replays r true looks
      (Parser.token what kind) :=
  accept_bind fun _ _ => pure rfl

theorem keyword
    (k : Keyword) :
    (Parser.keyword k).Replays r true looks
      (Parser.keyword k) :=
  token

theorem punct
    (p : Punct) :
    (Parser.punct p).Replays r true looks
      (Parser.punct p) :=
  token

------------------------------------------------------------
-- Optional Parts
------------------------------------------------------------

/- A part that is left out is left out by what follows. -/
theorem whenAt
    {kind : TokenKind}
    {p q : Parser α}
    (hPart : p.Replays r true true q) :
    (Parser.whenAt kind p).Replays r false true
      (Parser.whenAt kind q) := by
  intro ts rest o hDone
  rcases whenAt_eq_done.mp hDone with
    ⟨hNext, rfl, rfl⟩ | ⟨hNext, a, hRun, rfl⟩
  · exact .here fun rest' hRest =>
      whenAt_eq_done.mpr
        (.inl ⟨(hRest rfl).ne hNext, rfl, rfl⟩)
  · refine (hPart hRun).kind.mono Bool.noConfusion id
      fun us ws hRun => ?_
    rcases hRun with ⟨hKind, hRun⟩
    exact whenAt_eq_done.mpr
      (.inr ⟨hKind.trans hNext, move r a, hRun, rfl⟩)

/-
  A keyword that may be missing is looked for in what
  follows.
-/
theorem keyword?
    (k : Keyword) :
    (Parser.keyword? k).Replays r false true
      (Parser.keyword? k) :=
  whenAt (keyword k)

theorem punct?
    (p : Punct) :
    (Parser.punct? p).Replays r false true
      (Parser.punct? p) :=
  whenAt (punct p)

/-
  A mark that may be there leads two ways.  Without it, what
  follows has to pass a token or to look at the next one.
-/
theorem punct?_bind
    {f g : Option Span → Parser α}
    {mark : Punct}
    (hSeam : looks = true ∨ passes = true)
    (hNone : (f none).Replays r passes looks (g none))
    (hSome :
      ∀ s,
        (f (some s)).Replays r passes' looks
          (g (some (r.span s)))) :
    (Parser.punct? mark >>= f).Replays r passes looks
      (Parser.punct? mark >>= g) := by
  intro ts rest a hDone
  rcases bind_eq_done.mp hDone with ⟨o, mid, hMark, hNext⟩
  rcases punct?_eq_done.mp hMark with
    ⟨hOther, rfl, rfl⟩ | ⟨s, hThere, rfl⟩
  · refine ((hNone hNext).front hSeam).imp
      fun us ws hRun => ?_
    rcases hRun with ⟨hFront, hRun⟩
    exact bind_eq_done.mpr
      ⟨none, us,
        punct?_eq_done.mpr
          (.inl ⟨hFront.ne hOther, rfl, rfl⟩),
        hRun⟩
  · have hPunct :
        (Parser.punct mark).Replays r true false
          (Parser.punct mark) :=
      punct mark
    have hBoth :=
      (hPunct hThere).append (hSome s hNext)
        Bool.noConfusion fun us vs ws hLeft hRight =>
          bind_eq_done.mpr
            ⟨some (r.span s), vs,
              punct?_eq_done.mpr
                (.inr ⟨r.span s, hLeft, rfl⟩),
              hRight⟩
    exact hBoth.mono (fun _ => rfl) id fun _ _ => id

end Replays

------------------------------------------------------------
-- Repetitions
------------------------------------------------------------

/-
  The two ways of a step that is repeated.  An item passes a
  token, and the last part may look at what follows.
-/
structure StepReplays
    (r : Relocation)
    (passes looks : Bool)
    (p q : Parser (α ⊕ β)) : Prop where
  item :
    ∀ ⦃ts rest a⦄, p ts = .done (.inl a) rest →
      RunMoves r true true ts rest fun us ws =>
        q us = .done (.inl (move r a)) ws
  last :
    ∀ ⦃ts rest b⦄, p ts = .done (.inr b) rest →
      RunMoves r passes looks ts rest fun us ws =>
        q us = .done (.inr (move r b)) ws

namespace StepReplays

variable {r : Relocation}
variable {passes looks : Bool}

/- Anything may follow both the items and the last part. -/
theorem ofReplays
    {p q : Parser (α ⊕ β)}
    (hStep : p.Replays r true false q) :
    StepReplays r true false p q :=
  ⟨fun _ _ _ hDone => hStep.loose hDone,
    fun _ _ _ hDone => hStep hDone⟩

/- The runs of the items and of the last part in turn. -/
theorem steps
    {p q : Parser (α ⊕ β)}
    {ts rest : List Token}
    {as : List α}
    {b : β}
    (hStep : StepReplays r passes looks p q)
    (hSeam : looks = true ∨ passes = true)
    (hSteps : Steps p ts as b rest) :
    RunMoves r passes looks ts rest fun us ws =>
      as.length ≤ us.length ∧
        Steps q us (as.map (move r)) (move r b) ws := by
  induction hSteps with
  | last hLast =>
      exact (hStep.last hLast).imp fun us ws hRun =>
        ⟨Nat.zero_le _, .last hRun⟩
  | @item ts mid rest a as b hItem _ ih =>
      have hBoth :
          RunMoves r true looks ts rest fun us ws =>
            as.length < us.length ∧
              Steps q us (move r a :: as.map (move r))
                (move r b) ws :=
        (hStep.item hItem).shorter.append ih (fun _ => hSeam)
          fun us vs ws hLeft hRight =>
            ⟨Nat.lt_of_le_of_lt hRight.1 hLeft.1,
              .item hLeft.2 hRight.2⟩
      exact hBoth.mono (fun _ => rfl) id fun _ _ => id

theorem collect
    {missing : Expectation}
    {p q : Parser (α ⊕ β)}
    (hStep : StepReplays r passes looks p q)
    (hSeam : looks = true ∨ passes = true) :
    (Parser.collect missing p).Replays r passes looks
      (Parser.collect missing q) := by
  intro ts rest parts hDone
  rcases parts with ⟨as, b⟩
  have hSteps := (collect_eq_done.mp hDone).2
  refine (hStep.steps hSeam hSteps).imp fun us ws hRun => ?_
  exact collect_eq_done.mpr
    ⟨Nat.le_trans (Nat.le_of_eq (List.length_map _)) hRun.1,
      hRun.2⟩

end StepReplays

------------------------------------------------------------
-- Lists
------------------------------------------------------------

namespace Replays

variable {r : Relocation}
variable {item item' : Parser α}
variable {mark close : Punct}
variable (hItem : item.Replays r true true item')

include hItem

/-
  Items up to a closing mark are read again, whatever
  follows the mark.
-/
theorem itemsUntil :
    (Parser.itemsUntil close item).Replays r true false
      (Parser.itemsUntil close item') := by
  refine StepReplays.collect ⟨?_, ?_⟩ (.inr rfl)
  · intro ts rest a hStep
    rcases untilStep_eq_done.mp hStep with
      ⟨hNext, _, hRun, hPart⟩ | ⟨s, -, hPart⟩
    · cases hPart
      refine (hItem hRun).kind.imp fun us ws hRun => ?_
      rcases hRun with ⟨hKind, hRun⟩
      exact untilStep_eq_done.mpr
        (.inl ⟨hKind ▸ hNext, move r a, hRun, rfl⟩)
    · cases hPart
  · intro ts rest s hStep
    rcases untilStep_eq_done.mp hStep with
      ⟨-, _, -, hPart⟩ | ⟨_, hMark, hPart⟩
    · cases hPart
    · cases hPart
      exact (punct close hMark).imp fun us ws hRun =>
        untilStep_eq_done.mpr (.inr ⟨r.span s, hRun, rfl⟩)

/-
  Items that follow a mark each end where no other mark
  follows.
-/
theorem itemsAfter :
    (Parser.itemsAfter mark item).Replays r false true
      (Parser.itemsAfter mark item') := by
  have hPunct :
      (Parser.punct mark).Replays r true false
        (Parser.punct mark) :=
    punct mark
  have hStep :
      StepReplays r false true (afterStep mark item)
        (afterStep mark item') := by
    refine ⟨?_, ?_⟩
    · intro ts rest a hStep
      rcases afterStep_eq_done.mp hStep with
        ⟨-, hPart, -⟩ | ⟨s, mid, hMark, _, hRun, hPart⟩
      · cases hPart
      · cases hPart
        exact
          (hPunct hMark).append (hItem hRun)
            Bool.noConfusion fun us vs ws hLeft hRight =>
              afterStep_eq_done.mpr
                (.inr
                  ⟨r.span s, vs, hLeft, move r a, hRight,
                    rfl⟩)
    · intro ts rest u hStep
      rcases afterStep_eq_done.mp hStep with
        ⟨hNext, -, rfl⟩ | ⟨_, _, _, _, _, hPart⟩
      · exact .here fun rest' hRest =>
          afterStep_eq_done.mpr
            (.inl ⟨(hRest rfl).ne hNext, rfl, rfl⟩)
      · cases hPart
  exact (hStep.collect (.inl rfl)).last fun _ => pure rfl

theorem commaItems :
    (Parser.commaItems item).Replays r true true
      (Parser.commaItems item') :=
  hItem.next fun _ =>
    (itemsAfter hItem).last fun _ => pure rfl

/-
  A list is read again with its closing mark, whatever
  follows that.
-/
theorem commaList :
    (Parser.commaList close item).Replays r true false
      (Parser.commaList close item') :=
  punct?_bind (.inr rfl)
    ((commaItems hItem).before fun _ =>
      (punct close).last fun _ => pure rfl)
    fun _ => pure rfl

end Replays

end Parser

end FeSyntax
