import FeSyntax.Proofs.Parsing.Advance
import FeSyntax.Proofs.Parsing.Leads
import FeSyntax.Proofs.Parsing.Sound

/-
  This file defines viable parsers.  A parser is viable for
  a language when everything that it passes is right: if it
  is done, the tokens that it has passed are a word of the
  language, and if it asks for something else, they are the
  start of one that can be written to its end.

  Key definitions include:
    * `Parser.Viable`

  Key theorems include:
    * `Parser.Viable.bind`
    * `Parser.Viable.peek_bind`
    * `Parser.Viable.whenAt_bind`
    * `Parser.Viable.headed`
    * `Parser.Viable.collect`
    * `Parser.Viable.commaList`
-/

namespace FeSyntax

open scoped Computability

open Spelling

------------------------------------------------------------
-- Viable Parsers
------------------------------------------------------------

namespace Parser

variable {α β : Type}

/-
  Where the next kind is as `first` says, the parser passes
  words of the language when it is done, and starts of words
  when it asks for something else.
-/
structure Viable
    (first : Option TokenKind → Prop)
    (l : Language TokenKind)
    (p : Parser α) : Prop where
  done :
    ∀ {ts rest a},
      Lexed ts →
      first (nextKind ts) →
      p ts = .done a rest →
      Reads ts l rest
  stopped :
    ∀ {ts rest what},
      Lexed ts →
      first (nextKind ts) →
      p ts = .stopped (.expected what) rest →
      Leads ts l rest

/- Any kind may come next. -/
def Anywhere : Option TokenKind → Prop :=
  fun _ => True

namespace Viable

variable {first : Option TokenKind → Prop}
variable {l m n : Language TokenKind}

/- The words can be taken from a larger language. -/
theorem le
    {p : Parser α}
    (hParser : p.Viable first l)
    (hLess : l ≤ m) :
    p.Viable first m where
  done := fun hLexed hFirst hDone =>
    (hParser.done hLexed hFirst hDone).mono hLess
  stopped := fun hLexed hFirst hStopped =>
    (hParser.stopped hLexed hFirst hStopped).mono hLess

theorem mono
    {first' : Option TokenKind → Prop}
    {p : Parser α}
    (hParser : p.Viable first l)
    (hFirst : ∀ next, first' next → first next) :
    p.Viable first' l where
  done := fun hLexed hNext =>
    hParser.done hLexed (hFirst _ hNext)
  stopped := fun hLexed hNext =>
    hParser.stopped hLexed (hFirst _ hNext)

/-
  What holds wherever the parser starts holds at some kinds.
-/
theorem here
    {p : Parser α}
    (hParser : p.Viable Anywhere l) :
    p.Viable first l :=
  hParser.mono fun _ _ => trivial

------------------------------------------------------------
-- Sequences
------------------------------------------------------------

theorem pure
    (a : α) :
    (Pure.pure a : Parser α).Viable first 1 where
  done := by
    intro ts rest b _ _ hDone
    cases hDone
    exact .refl ts
  stopped := by
    intro ts rest what _ _ hStopped
    cases hStopped

/-
  What asks for something else at once has passed the start
  of any word that can be ended.
-/
theorem ofExpected
    [Fillable l]
    (what : Expectation) :
    (fail (.expected what) : Parser α).Viable first l where
  done := by
    intro ts rest a _ _ hDone
    cases hDone
  stopped := by
    intro ts rest _ _ _ hStopped
    cases hStopped
    exact Fillable.leads ts

/- To be without levels is not to ask for anything. -/
theorem ofTooDeep :
    (fail .tooDeep : Parser α).Viable first l where
  done := by
    intro ts rest a _ _ hDone
    cases hDone
  stopped := by
    intro ts rest what _ _ hStopped
    cases hStopped

/- What is asked for first can be followed by the rest. -/
theorem bind
    [Fillable m]
    {p : Parser α}
    {f : α → Parser β}
    (hParser : p.Viable first l)
    (hNext : ∀ a, (f a).Viable Anywhere m) :
    (p >>= f).Viable first (l * m) where
  done := by
    intro ts rest b hLexed hFirst hDone
    rcases bind_eq_done.mp hDone with
      ⟨a, mid, hRun, hRest⟩
    have hReads := hParser.done hLexed hFirst hRun
    exact hReads.mul
      ((hNext a).done (hReads.lexed hLexed) trivial hRest)
  stopped := by
    intro ts rest what hLexed hFirst hStopped
    rcases bind_eq_stopped.mp hStopped with
      hRun | ⟨a, mid, hRun, hRest⟩
    · exact (hParser.stopped hLexed hFirst hRun).mul
    · have hReads := hParser.done hLexed hFirst hRun
      exact hReads.leads_mul
        ((hNext a).stopped (hReads.lexed hLexed) trivial
          hRest)

/- What follows passes nothing more. -/
theorem final
    {p : Parser α}
    {f : α → Parser β}
    (hParser : p.Viable first l)
    (hNext : ∀ a, (f a).Viable Anywhere 1) :
    (p >>= f).Viable first l :=
  (hParser.bind hNext).le (mul_one l).le

/- A function of the value passes the same words. -/
theorem map
    {p : Parser α}
    (f : α → β)
    (hParser : p.Viable first l) :
    (f <$> p).Viable first l :=
  hParser.final fun a => pure (f a)

------------------------------------------------------------
-- Next Kinds
------------------------------------------------------------

/- Once it is looked at, the next kind is known. -/
theorem peek_bind
    {f : Option TokenKind → Parser α}
    (hNext :
      ∀ next, first next → (f next).Viable (· = next) l) :
    (peek >>= f).Viable first l where
  done := fun hLexed hFirst hDone =>
    (hNext _ hFirst).done hLexed rfl hDone
  stopped := fun hLexed hFirst hStopped =>
    (hNext _ hFirst).stopped hLexed rfl hStopped

/- To ask for the next kind is to pass nothing. -/
theorem isAt_bind
    {kind : TokenKind}
    {f : Bool → Parser α}
    (hNext : ∀ b, (f b).Viable first l) :
    (isAt kind >>= f).Viable first l where
  done := fun hLexed hFirst hDone =>
    (hNext _).done hLexed hFirst hDone
  stopped := fun hLexed hFirst hStopped =>
    (hNext _).stopped hLexed hFirst hStopped

/- The next kind settles how the words are headed. -/
theorem headed
    {p : Parser α}
    {head : TokenKind → Prop}
    (hParser : p.Viable Anywhere l)
    (hName : [.plainName] ∈ l ⊓ Spelling.headed head)
    (hHead : ∀ kind, first (some kind) → head kind) :
    p.Viable first (l ⊓ Spelling.headed head) where
  done := by
    intro ts rest a hLexed hFirst hDone
    refine (hParser.done hLexed trivial hDone).headed ?_
    intro kind hNext
    rw [hNext] at hFirst
    exact hHead kind hFirst
  stopped := by
    intro ts rest what hLexed hFirst hStopped
    have hLeads := hParser.stopped hLexed trivial hStopped
    refine hLeads.headed hName fun kind hNext => ?_
    rw [hNext] at hFirst
    exact hHead kind hFirst

------------------------------------------------------------
-- Single Tokens
------------------------------------------------------------

/- A token that is not passed is where the parser stops. -/
theorem accept
    [Fillable l]
    {what : Expectation}
    {read : TokenKind → Option β}
    {f : β × Span → Parser α}
    (hPure : ∀ b span, ∃ a, f (b, span) = Pure.pure a)
    (hDone :
      ∀ {ts rest a},
        Lexed ts →
        (Parser.accept what read >>= f) ts = .done a rest →
        Reads ts l rest) :
    (Parser.accept what read >>= f).Viable first l where
  done := fun hLexed _ => hDone hLexed
  stopped := by
    intro ts rest fault _ _ hStopped
    rcases bind_eq_stopped.mp hStopped with
      hAccept | ⟨⟨b, span⟩, _, -, hRest⟩
    · rw [(stays_of_accept hAccept).2]
      exact Fillable.leads ts
    · rcases hPure b span with ⟨a, hEnd⟩
      rw [hEnd] at hRest
      cases hRest

theorem keyword
    (k : Keyword) :
    (Parser.keyword k).Viable first k.written :=
  accept (fun _ _ => ⟨_, rfl⟩) fun _ hDone =>
    reads_of_keyword hDone

theorem punct
    (p : Punct) :
    (Parser.punct p).Viable first p.written :=
  accept (fun _ _ => ⟨_, rfl⟩) fun _ hDone =>
    reads_of_punct hDone

theorem identifier :
    Parser.identifier.Viable first
      Identifier.sentences :=
  accept (fun _ _ => ⟨_, rfl⟩) fun hLexed hDone =>
    (identifier_sound hLexed hDone).1.mono
      (le_sentences trivial le_rfl)

/- A literal passes a token with its value. -/
theorem literal
    (what : Expectation) :
    (Parser.literal what).Viable first
      Literal.sentences :=
  accept (fun _ _ => ⟨_, rfl⟩) fun hLexed hDone =>
    (literal_sound hLexed hDone).1.mono
      (le_sentences trivial le_rfl)

------------------------------------------------------------
-- Optional Parts
------------------------------------------------------------

/- A part that may be missing passes its words or none. -/
theorem whenAt
    {kind : TokenKind}
    {p : Parser α}
    (hPart : p.Viable Anywhere l) :
    (Parser.whenAt kind p).Viable first (1 + l) where
  done := by
    intro ts rest o hLexed _ hDone
    rcases whenAt_eq_done.mp hDone with
      ⟨-, -, rfl⟩ | ⟨-, a, hRun, -⟩
    · exact reads_add_iff.mpr (.inl (.refl ts))
    · exact reads_add_iff.mpr
        (.inr (hPart.done hLexed trivial hRun))
  stopped := by
    intro ts rest what hLexed _ hStopped
    have hRun := (whenAt_eq_stopped.mp hStopped).2
    exact (hPart.stopped hLexed trivial hRun).mono
      le_add_self

/- A part that may be there leads two ways. -/
theorem whenAt_bind
    [Fillable m]
    {kind : TokenKind}
    {p : Parser α}
    {f : Option α → Parser β}
    (hPart : p.Viable Anywhere l)
    (hSome : ∀ a, (f (some a)).Viable Anywhere m)
    (hNone : (f none).Viable (· ≠ some kind) n) :
    (Parser.whenAt kind p >>= f).Viable first
      (l * m + n) where
  done := by
    intro ts rest b hLexed _ hDone
    rcases bind_eq_done.mp hDone with ⟨o, mid, hRun, hRest⟩
    rcases whenAt_eq_done.mp hRun with
      ⟨hNext, rfl, rfl⟩ | ⟨-, a, hPartRun, rfl⟩
    · exact reads_add_iff.mpr
        (.inr (hNone.done hLexed hNext hRest))
    · have hReads := hPart.done hLexed trivial hPartRun
      have hMore :=
        (hSome a).done (hReads.lexed hLexed) trivial hRest
      exact reads_add_iff.mpr (.inl (hReads.mul hMore))
  stopped := by
    intro ts rest what hLexed _ hStopped
    rcases bind_eq_stopped.mp hStopped with
      hRun | ⟨o, mid, hRun, hRest⟩
    · have hRun := (whenAt_eq_stopped.mp hRun).2
      have hLeads := hPart.stopped hLexed trivial hRun
      exact hLeads.mul.mono le_self_add
    · rcases whenAt_eq_done.mp hRun with
        ⟨hNext, rfl, rfl⟩ | ⟨-, a, hPartRun, rfl⟩
      · exact (hNone.stopped hLexed hNext hRest).mono
          le_add_self
      · have hReads := hPart.done hLexed trivial hPartRun
        have hLeads :=
          (hSome a).stopped (hReads.lexed hLexed) trivial
            hRest
        exact (hReads.leads_mul hLeads).mono le_self_add

/-
  A keyword that may be there leads two ways, and does not
  come next on the second one.
-/
theorem keyword?_bind
    [Fillable m]
    {k : Keyword}
    {f : Option Span → Parser α}
    (hSome : ∀ span, (f (some span)).Viable Anywhere m)
    (hNone :
      (f none).Viable (· ≠ some (.keyword k)) n) :
    (keyword? k >>= f).Viable first (k.written * m + n) :=
  whenAt_bind (keyword k) hSome hNone

theorem punct?_bind
    [Fillable m]
    {p : Punct}
    {f : Option Span → Parser α}
    (hSome : ∀ span, (f (some span)).Viable Anywhere m)
    (hNone : (f none).Viable (· ≠ some (.punct p)) n) :
    (punct? p >>= f).Viable first (p.written * m + n) :=
  whenAt_bind (punct p) hSome hNone

------------------------------------------------------------
-- Repetitions
------------------------------------------------------------

section Repetitions

variable {missing : Expectation}
variable {step : Parser (α ⊕ β)}
variable (hItems : step.ItemsAdvance)
variable
  (hItem :
    ∀ {ts rest a},
      Lexed ts → step ts = .done (.inl a) rest →
      Reads ts l rest)
variable
  (hLast :
    ∀ {ts rest b},
      Lexed ts → step ts = .done (.inr b) rest →
      Reads ts m rest)
variable (hStep : step.Viable Anywhere (l + m))

include hItems hItem hLast hStep

/-
  There is fuel for every item, so what a repetition asks
  for is what one of its steps asks for.
-/
theorem collectWithin
    [Fillable m]
    {found : List α}
    {fuel ts rest : List Token}
    (hLexed : Lexed ts)
    (hFuel : ts.length ≤ fuel.length) :
    (∀ parts,
      Parser.collectWithin missing step found fuel ts =
        .done parts rest →
      Reads ts (l∗ * m) rest) ∧
    ∀ what,
      Parser.collectWithin missing step found fuel ts =
        .stopped (.expected what) rest →
      Leads ts (l∗ * m) rest := by
  have hOne : m ≤ l∗ * m :=
    le_mul_of_one_le_left' one_le_kstar
  have hMore : l * (l∗ * m) ≤ l∗ * m := by
    rw [← mul_assoc]
    exact mul_le_mul_left mul_kstar_le_kstar _
  induction hSize : fuel.length using
    Nat.strong_induction_on generalizing found fuel ts with
  | _ size ih =>
    subst hSize
    cases hRun : step ts with
    | stopped fault mid =>
        rw [collectWithin_of_stopped hRun]
        refine ⟨nofun, fun what hSame => ?_⟩
        cases hSame
        rcases (hStep.stopped hLexed trivial hRun).cases
          with hLeads | hLeads
        · exact hLeads.mul.mono hMore
        · exact hLeads.mono hOne
    | done part mid =>
        cases part with
        | inr b =>
            rw [collectWithin_of_last hRun]
            refine ⟨fun parts hSame => ?_, nofun⟩
            cases hSame
            exact (hLast hLexed hRun).mono hOne
        | inl a =>
            rcases exists_collectWithin_of_item missing
                found hItems hRun hFuel with
              ⟨less, hLess, hEnough, hSame⟩
            have hReads := hItem hLexed hRun
            rw [hSame]
            rcases ih less.length hLess
                (hReads.lexed hLexed) hEnough rfl with
              ⟨hDone, hStopped⟩
            constructor
            · intro parts hParts
              exact (hReads.mul (hDone parts hParts)).mono
                hMore
            · intro what hParts
              exact (hReads.leads_mul
                (hStopped what hParts)).mono hMore

/-
  A repetition passes the words of its items and then those
  of its last part.
-/
theorem collect
    [Fillable m] :
    (Parser.collect missing step).Viable first
      (l∗ * m) where
  done := fun hLexed _ hDone =>
    (collectWithin hItems hItem hLast hStep hLexed
      (Nat.le_refl _)).1 _ hDone
  stopped := fun hLexed _ hStopped =>
    (collectWithin hItems hItem hLast hStep hLexed
      (Nat.le_refl _)).2 _ hStopped

end Repetitions

------------------------------------------------------------
-- Lists
------------------------------------------------------------

section Lists

variable {item : Parser α}
variable {levels : Nat}
variable (hItem : item.Viable Anywhere l)
variable (hPasses : item.Passes 1 levels)

include hItem hPasses

/-
  Items up to a closing mark pass their words and the mark.
-/
theorem itemsUntil
    [Fillable l]
    (close : Punct) :
    (Parser.itemsUntil close item).Viable first
      (l∗ * close.written) := by
  have hStep :
      (untilStep close item).Viable Anywhere
        (l + close.written) := by
    have hParts :
        (untilStep close item).Viable Anywhere
          (close.written * 1 + l) :=
      punct?_bind (fun _ => pure _) (hItem.here.map _)
    exact hParts.le (by rw [mul_one, add_comm])
  refine collect (.untilStep hPasses close) ?_ ?_ hStep
  · intro ts rest a hLexed hDone
    rcases untilStep_eq_done.mp hDone with
      ⟨-, b, hRun, -⟩ | ⟨span, -, hPart⟩
    · exact hItem.done hLexed trivial hRun
    · cases hPart
  · intro ts rest span hLexed hDone
    rcases untilStep_eq_done.mp hDone with
      ⟨-, b, -, hPart⟩ | ⟨span, hClose, -⟩
    · cases hPart
    · exact reads_of_punct hClose

/-
  Items that follow a mark each pass it in front of their
  words.
-/
theorem itemsAfter
    [Fillable l]
    (mark : Punct) :
    (Parser.itemsAfter mark item).Viable first
      (mark.written * l)∗ := by
  have hStep :
      (afterStep mark item).Viable Anywhere
        (mark.written * l + 1) :=
    punct?_bind (fun _ => hItem.map _) (pure _)
  have hParts :
      (Parser.collect (.punct mark)
          (afterStep mark item)).Viable first
        ((mark.written * l)∗ * 1) := by
    refine collect (.afterStep hPasses mark) ?_ ?_ hStep
    · intro ts rest a hLexed hDone
      rcases afterStep_eq_done.mp hDone with
        ⟨-, hPart, -⟩ | ⟨span, mid, hMark, b, hRun, -⟩
      · cases hPart
      · have hReads := reads_of_punct hMark
        exact hReads.mul
          (hItem.done (hReads.lexed hLexed) trivial hRun)
    · intro ts rest u hLexed hDone
      rcases afterStep_eq_done.mp hDone with
        ⟨-, -, rfl⟩ | ⟨span, mid, -, b, -, hPart⟩
      · exact .refl ts
      · cases hPart
  exact (hParts.le (mul_one _).le).final fun _ => pure _

/- Items between commas pass at least one word. -/
theorem commaItems
    [Fillable l] :
    (Parser.commaItems item).Viable first
      (someOf .comma l) :=
  hItem.here.bind fun _ =>
    (itemsAfter hItem hPasses .comma).final fun _ => pure _

/-
  A list passes any number of words and its closing mark.
-/
theorem commaList
    [Fillable l]
    (close : Punct) :
    (Parser.commaList close item).Viable first
      (anyOf close l) := by
  have hParts :
      (Parser.commaList close item).Viable first
        (close.written * 1 +
          someOf .comma l * close.written) :=
    punct?_bind (fun _ => pure _)
      ((commaItems hItem hPasses).bind fun _ =>
        (punct close).final fun _ => pure _)
  exact hParts.le (by rw [mul_one, anyOf])

end Lists

------------------------------------------------------------
-- Paths And Type Parameters
------------------------------------------------------------

/- A path passes names with `::` between them. -/
theorem path :
    Parser.path.Viable first Path.sentences := by
  have hName : Parser.identifier.Passes 1 0 := .identifier
  have hParts :
      Parser.path.Viable first
        (someOf .colonColon Identifier.sentences) :=
    identifier.bind fun _ =>
      (itemsAfter identifier hName .colonColon).final
        fun _ => pure _
  exact hParts.le Path.some_le

/- Type parameters pass names between angles, or nothing. -/
theorem typeParams :
    Parser.typeParams.Viable first
      Identifier.paramSentences := by
  have hName : Parser.identifier.Passes 1 0 := .identifier
  have hParts :
      Parser.typeParams.Viable first
        (Punct.leftAngle.written *
            (someOf .comma Identifier.sentences *
              Punct.rightAngle.written) +
          1) :=
    punct?_bind
      (fun _ =>
        (commaItems identifier hName).bind fun _ =>
          (punct .rightAngle).final fun _ => pure _)
      (pure _)
  rw [add_comm] at hParts
  exact hParts.le Identifier.params_le

end Viable

end Parser

end FeSyntax
