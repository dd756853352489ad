import FeSyntax.Outline
import FeSyntax.Proofs.Parsing.Outcome

/-
  This file defines what it means for a node of an outline
  to own a run of tokens: its span covers that run exactly,
  and its children own parts of the run, one behind the
  other.  It proves how parsers put runs together.

  Key definitions include:
    * `Span.Encloses`
    * `Node.Covers`
    * `Outline.Owns`
    * `Outline.OwnsAll`
    * `Parser.Uses`

  Key theorems include:
    * `Outline.OwnsAll.append`
    * `Outline.OwnsAll.exists_run`
    * `Parser.Uses.bind`
    * `Parser.Uses.collect`
    * `Parser.Uses.commaList`
-/

namespace FeSyntax

------------------------------------------------------------
-- Spans Of Runs
------------------------------------------------------------

namespace Span

/- The span starts where the first token of a run starts. -/
def StartsWith
    (s : Span)
    (run : List Token) : Prop :=
  ∃ first, run.head? = some first ∧
    s.start = first.span.start ∧
    s.line = first.span.line ∧
    s.column = first.span.column

/- The span stops where the last token of a run stops. -/
def StopsWith
    (s : Span)
    (run : List Token) : Prop :=
  ∃ last, run.getLast? = some last ∧
    s.stop = last.span.stop

/- The span covers a run of tokens, and nothing else. -/
structure Encloses
    (s : Span)
    (run : List Token) : Prop where
  starts : s.StartsWith run
  stops : s.StopsWith run

variable {s s' : Span}
variable {run more : List Token}

theorem encloses_single
    (t : Token) :
    t.span.Encloses [t] :=
  ⟨⟨t, rfl, rfl, rfl, rfl⟩, ⟨t, rfl, rfl⟩⟩

/-
  A span starts where it did, whatever is put behind the
  run.
-/
theorem StartsWith.append
    (hStarts : s.StartsWith run)
    (more : List Token) :
    s.StartsWith (run ++ more) := by
  rcases hStarts with ⟨first, hFirst, hPlace⟩
  refine ⟨first, ?_, hPlace⟩
  rw [List.head?_append, hFirst]
  rfl

/-
  A span stops where it did, whatever is put in front of the
  run.
-/
theorem StopsWith.skip
    (hStops : s.StopsWith run)
    (before : List Token) :
    s.StopsWith (before ++ run) := by
  rcases hStops with ⟨last, hLast, hPlace⟩
  refine ⟨last, ?_, hPlace⟩
  rw [List.getLast?_append, hLast]
  rfl

/- A span through another starts like the one. -/
theorem Encloses.through
    (hStarts : s.StartsWith run)
    (hStops : s'.StopsWith run) :
    (s.through s').Encloses run :=
  ⟨hStarts, hStops⟩

end Span

------------------------------------------------------------
-- Owners Of Runs
------------------------------------------------------------

/-
  A node covers a run of tokens if its span does.  What an
  identifier covers is one token, written as its name.
-/
structure Node.Covers
    (n : Node)
    (run : List Token) : Prop where
  span : n.span.Encloses run
  name :
    ∀ i, n.identifier? = some i →
      run.map (fun t => t.kind.word?) = [some i.name]

namespace Outline

mutual

/-
  A node that covers a run owns it if its children own parts
  of it.
-/
inductive Owns : Outline → List Token → Prop where
  | node
      {n : Node}
      {children : List Outline}
      {run : List Token}
      (hNode : n.Covers run)
      (hChildren : OwnsAll children run) :
      Owns (.node n children) run

/-
  Outlines own parts of a run, one behind the other.  Tokens
  in front of a part belong to none of them.
-/
inductive OwnsAll : List Outline → List Token → Prop where
  | nil
      {run : List Token} :
      OwnsAll [] run
  | cons
      {o : Outline}
      {os : List Outline}
      {gap own behind : List Token}
      (hOwn : o.Owns own)
      (hRest : OwnsAll os behind) :
      OwnsAll (o :: os) (gap ++ own ++ behind)

end

variable {o : Outline}
variable {os os' : List Outline}
variable {run own behind : List Token}

namespace OwnsAll

/- An outline owns the front of a run. -/
theorem first
    (hOwn : o.Owns own)
    (hRest : OwnsAll os behind) :
    OwnsAll (o :: os) (own ++ behind) :=
  have hAll : OwnsAll (o :: os) ([] ++ own ++ behind) :=
    .cons hOwn hRest
  hAll

/- Nothing owns the front of a run. -/
theorem skip
    (hAll : OwnsAll os run)
    (before : List Token) :
    OwnsAll os (before ++ run) := by
  cases hAll with
  | nil => exact .nil
  | @cons o os gap own behind hOwn hRest =>
      rw [← List.append_assoc, ← List.append_assoc]
      exact .cons hOwn hRest

/-
  Two lists of outlines own the runs one behind the other.
-/
theorem append
    (hFirst : OwnsAll os run)
    (hSecond : OwnsAll os' behind) :
    OwnsAll (os ++ os') (run ++ behind) := by
  induction os generalizing run with
  | nil => exact hSecond.skip run
  | cons o os ih =>
      cases hFirst with
      | @cons _ _ gap own rest hOwn hRest =>
          rw [List.append_assoc]
          exact .cons hOwn (ih hRest)

/- Nothing owns the end of a run. -/
theorem extend
    (hAll : OwnsAll os run)
    (behind : List Token) :
    OwnsAll os (run ++ behind) := by
  have hNone : OwnsAll [] behind := .nil
  have hBoth := hAll.append hNone
  rw [List.append_nil] at hBoth
  exact hBoth

/- One outline owns a whole run. -/
theorem single
    (hOwn : o.Owns own) :
    OwnsAll [o] own := by
  rw [← List.append_nil own]
  exact first hOwn .nil

end OwnsAll

/- A node that is no identifier. -/
theorem Owns.of_parts
    {n : Node}
    (hSpan : n.span.Encloses run)
    (hNode : n.identifier? = none)
    (hChildren : OwnsAll os run) :
    (Outline.node n os).Owns run := by
  refine .node ⟨hSpan, fun i hSome => ?_⟩ hChildren
  rw [hNode] at hSome
  cases hSome

/- The node of an outline. -/
def root : Outline → Node
  | node n _ => n

/- The span of an owner goes around its run. -/
theorem Owns.encloses
    (hOwns : o.Owns run) :
    o.root.span.Encloses run := by
  cases hOwns with
  | node hNode hChildren => exact hNode.span

mutual

/- Every node of an owner covers a part of its run. -/
theorem Owns.exists_run
    {n : Node}
    (o : Outline)
    {run : List Token}
    (hOwns : o.Owns run)
    (hMem : n ∈ o.nodes) :
    ∃ part, part <:+: run ∧ n.Covers part := by
  rcases o with ⟨root, children⟩
  rcases hOwns with ⟨hNode, hChildren⟩
  simp only [nodes, walk, if_true, List.mem_cons] at hMem
  rcases hMem with rfl | hMem
  · exact ⟨run, List.infix_refl run, hNode⟩
  · exact OwnsAll.exists_run children hChildren hMem

/-
  The same holds for every node of the outlines in a list.
-/
theorem OwnsAll.exists_run
    {n : Node}
    (os : List Outline)
    {run : List Token}
    (hAll : OwnsAll os run)
    (hMem : n ∈ walkAll (fun _ => true) os) :
    ∃ part, part <:+: run ∧ n.Covers part := by
  cases os with
  | nil => simp [walkAll] at hMem
  | cons o os =>
      rcases hAll with _ | ⟨hOwn, hRest⟩
      simp only [walkAll, List.mem_append] at hMem
      rcases hMem with hMem | hMem
      · rcases Owns.exists_run o hOwn hMem with
          ⟨part, hInfix, hNode⟩
        exact ⟨part, hInfix.trans ⟨_, _, rfl⟩, hNode⟩
      · rcases OwnsAll.exists_run os hRest hMem with
          ⟨part, hInfix, hNode⟩
        exact
          ⟨part,
            hInfix.trans (List.suffix_append _ _).isInfix,
            hNode⟩

end

end Outline

------------------------------------------------------------
-- Runs That Parsers Use
------------------------------------------------------------

namespace Parser

variable {α β : Type}

/-
  A parser that is done has passed a run of tokens, and its
  value and that run are as `good` says.
-/
def Uses
    (good : α → List Token → Prop)
    (p : Parser α) : Prop :=
  ∀ ⦃ts rest a⦄, p ts = .done a rest →
    ∃ run, ts = run ++ rest ∧ good a run

namespace Uses

variable {good : α → List Token → Prop}
variable {goodNext : β → List Token → Prop}

theorem pure
    {a : α}
    (hGood : good a []) :
    (Pure.pure a : Parser α).Uses good := by
  intro ts rest b hDone
  cases hDone
  exact ⟨[], rfl, hGood⟩

/- A parser that fails uses none, as it is never done. -/
theorem fail
    (fault : Fault) :
    (Parser.fail fault : Parser α).Uses good := by
  intro ts rest a hDone
  cases hDone

/- The runs of two parsers stand one behind the other. -/
theorem bind
    {p : Parser α}
    {f : α → Parser β}
    (hParser : p.Uses good)
    (hNext :
      ∀ a run, good a run →
        (f a).Uses fun b more => goodNext b (run ++ more)) :
    (p >>= f).Uses goodNext := by
  intro ts rest b hDone
  rcases bind_eq_done.mp hDone with ⟨a, mid, hRun, hRest⟩
  rcases hParser hRun with ⟨run, rfl, hGood⟩
  rcases hNext a run hGood hRest with ⟨more, rfl, hBoth⟩
  exact ⟨run ++ more, (List.append_assoc _ _ _).symm, hBoth⟩

/- What is known of the run can be weakened. -/
theorem mono
    {good' : α → List Token → Prop}
    {p : Parser α}
    (hParser : p.Uses good)
    (hGood : ∀ a run, good a run → good' a run) :
    p.Uses good' := by
  intro ts rest a hDone
  rcases hParser hDone with ⟨run, hTokens, hRun⟩
  exact ⟨run, hTokens, hGood a run hRun⟩

/-
  What is known of a changed value can be said of the value.
-/
theorem map
    {p : Parser α}
    {f : α → β}
    (hParser : p.Uses fun a run => goodNext (f a) run) :
    (f <$> p).Uses goodNext := by
  refine hParser.bind fun a run hGood => pure ?_
  rw [List.append_nil]
  exact hGood

/- To look at the next token is to use none. -/
theorem peek_bind
    {f : Option TokenKind → Parser α}
    (hNext : ∀ next, (f next).Uses good) :
    (peek >>= f).Uses good :=
  fun _ _ _ hDone => hNext _ hDone

/- To ask for the next kind is to use none. -/
theorem isAt_bind
    {kind : TokenKind}
    {f : Bool → Parser α}
    (hNext : ∀ b, (f b).Uses good) :
    (isAt kind >>= f).Uses good :=
  fun _ _ _ hDone => hNext _ hDone

------------------------------------------------------------
-- Single Tokens
------------------------------------------------------------

/- A token that is accepted is the whole run. -/
theorem accept
    {what : Expectation}
    {read : TokenKind → Option β} :
    (Parser.accept what read).Uses fun part run =>
      ∃ t, run = [t] ∧ read t.kind = some part.1 ∧
        t.span = part.2 := by
  intro ts rest part hDone
  rcases part with ⟨b, span⟩
  rcases accept_eq_done.mp hDone with ⟨t, rfl, hRead, hSpan⟩
  exact ⟨[t], rfl, t, rfl, hRead, hSpan⟩

theorem token
    {what : Expectation}
    {kind : TokenKind} :
    (Parser.token what kind).Uses Span.Encloses := by
  intro ts rest span hDone
  rcases token_eq_done.mp hDone with ⟨t, rfl, -, rfl⟩
  exact ⟨[t], rfl, Span.encloses_single t⟩

theorem keyword
    (k : Keyword) :
    (Parser.keyword k).Uses Span.Encloses :=
  token

theorem punct
    (p : Punct) :
    (Parser.punct p).Uses Span.Encloses :=
  token

/- A part that may be there, or else no token. -/
theorem whenAt
    {kind : TokenKind}
    {p : Parser α}
    (hPart : p.Uses good) :
    (Parser.whenAt kind p).Uses fun o run =>
      (o = none ∧ run = []) ∨
        ∃ a, o = some a ∧ good a run := by
  intro ts rest o hDone
  rcases whenAt_eq_done.mp hDone with
    ⟨-, rfl, rfl⟩ | ⟨-, a, hRun, rfl⟩
  · exact ⟨[], rfl, .inl ⟨rfl, rfl⟩⟩
  · rcases hPart hRun with ⟨run, hTokens, hGood⟩
    exact ⟨run, hTokens, .inr ⟨a, rfl, hGood⟩⟩

/- A part that may be there leads two ways. -/
theorem whenAt_bind
    {kind : TokenKind}
    {p : Parser α}
    {f : Option α → Parser β}
    (hPart : p.Uses good)
    (hNone : (f none).Uses goodNext)
    (hSome :
      ∀ a run, good a run →
        (f (some a)).Uses fun b more =>
          goodNext b (run ++ more)) :
    (Parser.whenAt kind p >>= f).Uses goodNext := by
  refine hPart.whenAt.bind fun o run hGood => ?_
  rcases hGood with ⟨rfl, rfl⟩ | ⟨a, rfl, hGood⟩
  · exact hNone
  · exact hSome a run hGood

/- A part behind a token, if that is there. -/
theorem behind
    {kind : TokenKind}
    {lead : Parser Span}
    {p : Parser α}
    {outline : α → Outline}
    (hLead : lead.Uses Span.Encloses)
    (hPart : p.Uses fun a run => (outline a).Owns run) :
    (Parser.whenAt kind (lead >>= fun _ => p)).Uses
      fun o run =>
        Outline.OwnsAll (o.map outline).toList run := by
  have hBoth :
      (lead >>= fun _ => p).Uses fun a run =>
        Outline.OwnsAll [outline a] run :=
    hLead.bind fun _ r _ => hPart.mono fun _ _ hOwns =>
      .skip (.single hOwns) r
  refine hBoth.whenAt.mono fun o run hGood => ?_
  rcases hGood with ⟨rfl, -⟩ | ⟨a, rfl, hAll⟩
  · exact .nil
  · exact hAll

/-
  A mark that may be missing belongs to the run if it is
  there.
-/
theorem punct?_bind
    {p : Punct}
    {f : Option Span → Parser β}
    (hNone : (f none).Uses goodNext)
    (hSome :
      ∀ span run, span.Encloses run →
        (f (some span)).Uses fun b more =>
          goodNext b (run ++ more)) :
    (punct? p >>= f).Uses goodNext :=
  whenAt_bind (punct p) hNone hSome

------------------------------------------------------------
-- Repetitions
------------------------------------------------------------

/-
  The runs of the steps of a repetition stand one behind the
  other, up to that of the last part.
-/
theorem collect
    {missing : Expectation}
    {step : Parser (α ⊕ β)}
    {goodStep : α ⊕ β → List Token → Prop}
    {goodAll : List α × β → List Token → Prop}
    (hStep : step.Uses goodStep)
    (hLast :
      ∀ b run, goodStep (.inr b) run → goodAll ([], b) run)
    (hMore :
      ∀ a as b run more,
        goodStep (.inl a) run → goodAll (as, b) more →
        goodAll (a :: as, b) (run ++ more)) :
    (Parser.collect missing step).Uses goodAll := by
  intro ts rest parts hDone
  rcases parts with ⟨as, b⟩
  have hSteps := (collect_eq_done.mp hDone).2
  clear hDone
  induction hSteps with
  | last hRun =>
      rcases hStep hRun with ⟨run, hTokens, hGood⟩
      exact ⟨run, hTokens, hLast _ run hGood⟩
  | item hRun hSteps ih =>
      rcases hStep hRun with ⟨run, rfl, hGood⟩
      rcases ih with ⟨more, rfl, hAll⟩
      exact
        ⟨run ++ more, (List.append_assoc _ _ _).symm,
          hMore _ _ _ run more hGood hAll⟩

------------------------------------------------------------
-- Lists
------------------------------------------------------------

section Lists

variable {item : Parser α}
variable {outline : α → Outline}
variable
  (hItem : item.Uses fun a run => (outline a).Owns run)

include hItem

/- The items own parts of the run, and its end is given. -/
theorem itemsUntil
    (close : Punct) :
    (Parser.itemsUntil close item).Uses fun parts run =>
      Outline.OwnsAll (parts.1.map outline) run ∧
        parts.2.StopsWith run := by
  have hStep :
      (untilStep close item).Uses fun part run =>
        Sum.elim (fun a => (outline a).Owns run)
          (fun span => span.StopsWith run) part := by
    refine punct?_bind (map hItem) fun span run hClose => ?_
    refine pure ?_
    rw [List.append_nil]
    exact hClose.stops
  refine collect hStep ?_ ?_
  · intro span run hStops
    exact ⟨.nil, hStops⟩
  · intro a as span run more hOwns hAll
    exact ⟨.first hOwns hAll.1, hAll.2.skip run⟩

/-
  The items own parts of the run, which is empty if there
  are none.  Behind a run that ends with an item, the last
  of all items is at the end.
-/
theorem itemsAfter
    (mark : Punct) :
    (Parser.itemsAfter mark item).Uses fun as run =>
      Outline.OwnsAll (as.map outline) run ∧
        (as = [] → run = []) ∧
        ∀ first before,
          (outline first).root.span.StopsWith before →
          (outline (as.getLastD first)).root.span.StopsWith
            (before ++ run) := by
  have hStep :
      (afterStep mark item).Uses fun part run =>
        Sum.elim
          (fun a =>
            Outline.OwnsAll [outline a] run ∧
              (outline a).root.span.StopsWith run)
          (fun _ => run = []) part := by
    refine punct?_bind (pure rfl) fun span run hMark => ?_
    refine map (hItem.mono fun a own hOwns => ?_)
    exact
      ⟨(Outline.OwnsAll.single hOwns).skip run,
        hOwns.encloses.stops.skip run⟩
  have hParts :
      (Parser.collect (.punct mark)
          (afterStep mark item)).Uses fun parts run =>
        Outline.OwnsAll (parts.1.map outline) run ∧
          (parts.1 = [] → run = []) ∧
          ∀ first before,
            (outline first).root.span.StopsWith before →
            (outline
                (parts.1.getLastD first)).root.span.StopsWith
              (before ++ run) := by
    refine collect hStep ?_ ?_
    · rintro _ run rfl
      refine
        ⟨.nil, fun _ => rfl, fun first before hStops => ?_⟩
      rw [List.append_nil]
      exact hStops
    · intro a as _ run more hOwns hAll
      refine
        ⟨hOwns.1.append hAll.1, nofun,
          fun first before _ => ?_⟩
      rw [List.getLastD_cons, ← List.append_assoc]
      exact hAll.2.2 a _ (hOwns.2.skip before)
  refine hParts.bind fun parts run hGood => pure ?_
  rw [List.append_nil]
  exact hGood

/- The items between commas own parts of the run. -/
theorem commaItems :
    (Parser.commaItems item).Uses fun as run =>
      Outline.OwnsAll (as.map outline) run := by
  refine hItem.bind fun first run hOwns => ?_
  refine (itemsAfter hItem .comma).bind
    fun more run' hMore => pure ?_
  rw [List.append_nil]
  exact .first hOwns hMore.1

/- A list that is closed by a mark stops with it. -/
theorem commaList
    (close : Punct) :
    (Parser.commaList close item).Uses fun parts run =>
      Outline.OwnsAll (parts.1.map outline) run ∧
        parts.2.StopsWith run := by
  refine punct?_bind ?_ fun span run hClose => pure ?_
  · refine (commaItems hItem).bind fun as run hAll => ?_
    refine (punct close).bind ?_
    intro span run' hClose
    refine pure ?_
    rw [List.append_nil]
    exact ⟨hAll.extend run', hClose.stops.skip run⟩
  · rw [List.append_nil]
    exact ⟨.nil, hClose.stops⟩

end Lists

------------------------------------------------------------
-- Names, Paths And Literals
------------------------------------------------------------

theorem identifier :
    Parser.identifier.Uses fun i run =>
      i.outline.Owns run := by
  refine accept.bind fun part run hToken => ?_
  rcases part with ⟨name, span⟩
  rcases hToken with ⟨t, rfl, hWord, rfl⟩
  refine pure (.node ⟨Span.encloses_single t, ?_⟩ .nil)
  rintro i ⟨⟩
  exact congrArg (fun word => [word]) hWord

theorem literal
    (what : Expectation) :
    (Parser.literal what).Uses fun l run =>
      l.outline.Owns run := by
  refine accept.bind fun part run hToken => ?_
  rcases part with ⟨value, span⟩
  rcases hToken with ⟨t, rfl, -, rfl⟩
  exact pure
    (.of_parts (Span.encloses_single t) rfl .nil)

/- A path of one segment is where its segment is. -/
theorem path :
    Parser.path.Uses fun p run =>
      p.outline.Owns run ∧
        ∀ name, p.segments = [name] →
          name.outline.Owns run := by
  refine identifier.bind fun first run hFirst => ?_
  refine (itemsAfter identifier .colonColon).bind
    fun more run' hMore => pure ?_
  rw [List.append_nil]
  rcases hMore with ⟨hAll, hNone, hLast⟩
  have hStarts := hFirst.encloses.starts.append run'
  have hStops := hLast first run hFirst.encloses.stops
  constructor
  · exact .of_parts (.through hStarts hStops) rfl
      (.first hFirst hAll)
  · rintro name ⟨⟩
    rw [hNone rfl, List.append_nil]
    exact hFirst

/-
  Type parameters own parts of their run, if there are any.
-/
theorem typeParams :
    Parser.typeParams.Uses fun names run =>
      Outline.OwnsAll (names.map Identifier.outline) run := by
  refine punct?_bind (pure .nil) fun span run _ => ?_
  refine (commaItems identifier).bind
    fun names run' hNames => ?_
  refine (punct .rightAngle).bind fun _ _ _ => pure ?_
  exact (hNames.extend _).skip run

end Uses

end Parser

end FeSyntax
