import FeSyntax.Proofs.Parsing.Advance
import FeSyntax.Proofs.Parsing.Reads
import FeSyntax.Proofs.Syntax.Rename
import FeSyntax.Proofs.Syntax.Shape

/-
  This file compares what a parser does on two lists of
  tokens of which one starts like the other, renamed.  As
  long as it passes only tokens that are known to be the
  same, it does the same on both: its values are alike, and
  it stops behind the same number of tokens with the same
  fault.

  Key definitions include:
    * `Shaped`
    * `Alike`
    * `Aligned`
    * `Parser.Corresponds`

  Key theorems include:
    * `Parser.Corresponds.bind`
    * `Parser.Corresponds.accept`
    * `Parser.Corresponds.collect`
    * `Parser.Corresponds.commaList`
-/

namespace FeSyntax

------------------------------------------------------------
-- Values That Are Alike
------------------------------------------------------------

/-
  The values of parsers can be renamed, and have a shape
  that does not depend on where they stand.
-/
class Shaped (α : Type) where
  rename : Renaming → α → α
  shape : α → α

/- The value `b` is `a` renamed, up to places. -/
def Alike
    {α : Type}
    [Shaped α]
    (r : Renaming)
    (a b : α) : Prop :=
  Shaped.shape b = Shaped.shape (Shaped.rename r a)

section Shapes

variable {α β : Type}
variable [Shaped α] [Shaped β]

/- Every value is like some value. -/
theorem alike_rename
    (r : Renaming)
    (a : α) :
    Alike r a (Shaped.rename r a) :=
  rfl

instance : Shaped Span :=
  ⟨fun _ => id, Span.forget⟩

instance : Shaped Unit :=
  ⟨fun _ => id, id⟩

instance : Shaped Bool :=
  ⟨fun _ => id, id⟩

instance : Shaped TokenKind :=
  ⟨Renaming.kind, id⟩

instance : Shaped (Option α) :=
  ⟨fun r => Option.map (Shaped.rename r),
    Option.map Shaped.shape⟩

instance : Shaped (List α) :=
  ⟨fun r => List.map (Shaped.rename r),
    List.map Shaped.shape⟩

instance : Shaped (α × β) :=
  ⟨fun r => Prod.map (Shaped.rename r) (Shaped.rename r),
    Prod.map Shaped.shape Shaped.shape⟩

instance : Shaped (α ⊕ β) :=
  ⟨fun r => Sum.map (Shaped.rename r) (Shaped.rename r),
    Sum.map Shaped.shape Shaped.shape⟩

variable {r : Renaming}

/- Places do not count. -/
@[simp] theorem alike_span
    (s s' : Span) :
    Alike r s s' :=
  rfl

/- There is one unit, so there is nothing to compare. -/
@[simp] theorem alike_unit
    (u u' : Unit) :
    Alike r u u' :=
  rfl

/- Truth values are alike if they are equal. -/
@[simp] theorem alike_bool
    {b b' : Bool} :
    Alike r b b' ↔ b' = b :=
  Iff.rfl

@[simp] theorem alike_none :
    Alike r (none : Option α) none :=
  rfl

/- Two values that are there are compared themselves. -/
@[simp] theorem alike_some
    {a b : α} :
    Alike r (some a) (some b) ↔ Alike r a b :=
  Option.some_inj

/- Optional values that are alike are both there or not. -/
theorem Alike.option_cases
    {o o' : Option α}
    (hAlike : Alike r o o') :
    (o = none ∧ o' = none) ∨
      ∃ a b, o = some a ∧ o' = some b ∧ Alike r a b := by
  cases o with
  | none =>
      cases o' with
      | none => exact .inl ⟨rfl, rfl⟩
      | some b => cases hAlike
  | some a =>
      cases o' with
      | none => cases hAlike
      | some b =>
          exact .inr ⟨a, b, rfl, rfl, alike_some.mp hAlike⟩

/- So one of them is there if the other is. -/
theorem Alike.isSome_eq
    {o o' : Option α}
    (hAlike : Alike r o o') :
    o'.isSome = o.isSome := by
  rcases hAlike.option_cases with
    ⟨rfl, rfl⟩ | ⟨a, b, rfl, rfl, -⟩ <;> rfl

@[simp] theorem alike_nil :
    Alike r ([] : List α) [] :=
  rfl

@[simp] theorem alike_cons
    {a b : α}
    {as bs : List α} :
    Alike r (a :: as) (b :: bs) ↔
      Alike r a b ∧ Alike r as bs :=
  List.cons_eq_cons

/- Lists in reverse are as alike as before. -/
@[simp] theorem alike_reverse
    {as bs : List α} :
    Alike r as.reverse bs.reverse ↔ Alike r as bs := by
  simp only [Alike, Shaped.shape, Shaped.rename,
    List.map_reverse, List.reverse_inj]

/- Pairs are compared by their components. -/
@[simp] theorem alike_pair
    {a b : α}
    {c d : β} :
    Alike r (a, c) (b, d) ↔ Alike r a b ∧ Alike r c d :=
  Prod.mk_inj

/- Values on the left are compared themselves. -/
@[simp] theorem alike_inl
    {a b : α} :
    Alike r (.inl a : α ⊕ β) (.inl b) ↔ Alike r a b :=
  Sum.inl.inj_iff

@[simp] theorem alike_inr
    {c d : β} :
    Alike r (.inr c : α ⊕ β) (.inr d) ↔ Alike r c d :=
  Sum.inr.inj_iff

/- Parts that are alike are of one side. -/
theorem Alike.sum_cases
    {x y : α ⊕ β}
    (hAlike : Alike r x y) :
    (∃ a b, x = .inl a ∧ y = .inl b ∧ Alike r a b) ∨
      ∃ c d, x = .inr c ∧ y = .inr d ∧ Alike r c d := by
  cases x with
  | inl a =>
      cases y with
      | inl b =>
          exact .inl ⟨a, b, rfl, rfl, alike_inl.mp hAlike⟩
      | inr d => cases hAlike
  | inr c =>
      cases y with
      | inl b => cases hAlike
      | inr d =>
          exact .inr ⟨c, d, rfl, rfl, alike_inr.mp hAlike⟩

end Shapes

------------------------------------------------------------
-- Aligned Tokens
------------------------------------------------------------

/-
  The kinds of the first `k` tokens of `us` are those of
  `ts`, renamed.  If one list is shorter, so is the other.
-/
structure Aligned
    (r : Renaming)
    (k : Nat)
    (ts us : List Token) : Prop where
  lexed : Lexed ts
  kinds :
    (us.take k).map Token.kind =
      (ts.take k).map fun t => r.kind t.kind

namespace Aligned

variable {r : Renaming}
variable {k : Nat}
variable {t : Token}
variable {ts us : List Token}

/- Nothing is known of no tokens. -/
theorem zero
    (hLexed : Lexed ts)
    (us : List Token) :
    Aligned r 0 ts us :=
  ⟨hLexed, by simp⟩

/-
  If the end of the first list is known, it is that of the
  second one.
-/
theorem of_nil
    (hAligned : Aligned r (k + 1) [] us) :
    us = [] := by
  cases us with
  | nil => rfl
  | cons u us => simpa using hAligned.kinds

/- A known token has a renamed token across from it. -/
theorem of_cons
    (hAligned : Aligned r (k + 1) (t :: ts) us) :
    ∃ u rest, us = u :: rest ∧
      u.kind = r.kind t.kind ∧ Aligned r k ts rest := by
  have hKinds := hAligned.kinds
  cases us with
  | nil => simp at hKinds
  | cons u us =>
      simp only [List.take_succ_cons, List.map_cons,
        List.cons.injEq] at hKinds
      refine ⟨u, us, rfl, hKinds.1, ?_, hKinds.2⟩
      intro t hMem
      exact hAligned.lexed t (List.mem_cons_of_mem _ hMem)

/- The next kinds are the same if one token is known. -/
theorem nextKind_eq
    (hAligned : Aligned r k ts us)
    (hKnown : 0 < k) :
    nextKind us = (nextKind ts).map r.kind := by
  obtain ⟨k, rfl⟩ :=
    Nat.exists_eq_succ_of_ne_zero hKnown.ne'
  cases ts with
  | nil =>
      rw [hAligned.of_nil]
      rfl
  | cons t ts =>
      rcases hAligned.of_cons with ⟨u, rest, rfl, hKind, -⟩
      rw [nextKind_cons, hKind]
      rfl

/- Lists of which all is known are equally long. -/
theorem length_eq
    (hAligned : Aligned r k ts us)
    (hKnown : ts.length < k) :
    us.length = ts.length := by
  have hLength := congrArg List.length hAligned.kinds
  rw [List.length_map, List.length_map, List.length_take,
    List.length_take] at hLength
  omega

end Aligned

------------------------------------------------------------
-- Parsers That Correspond
------------------------------------------------------------

/- The tokens that are left when a parser ends. -/
def Outcome.rest
    {α : Type} : Outcome α → List Token
  | done _ rest => rest
  | stopped _ rest => rest

/-
  Two parsers end alike: with values that are alike, or with
  the same fault.  Of the tokens that are left, `k` are
  known to be the same.
-/
inductive Agree
    {α : Type}
    [Shaped α]
    (r : Renaming)
    (k : Nat) : Outcome α → Outcome α → Prop where
  | done
      {a b : α}
      {rest rest' : List Token}
      (hValue : Alike r a b)
      (hRest : Aligned r k rest rest') :
      Agree r k (.done a rest) (.done b rest')
  | stopped
      {fault : Fault}
      {rest rest' : List Token}
      (hRest : Aligned r k rest rest') :
      Agree r k (.stopped fault rest) (.stopped fault rest')

/-
  Two parsers end alike if the first of them, which starts
  at `ts`, does not pass all of the `k` tokens that are
  known.  It leaves an end of its tokens in any case.
-/
def EndAlike
    {α : Type}
    [Shaped α]
    (r : Renaming)
    (k : Nat)
    (ts : List Token)
    (o o' : Outcome α) : Prop :=
  ∃ used, ts = used ++ o.rest ∧
    (used.length < k → Agree r (k - used.length) o o')

namespace EndAlike

variable {α β : Type}
variable [Shaped α] [Shaped β]
variable {r : Renaming}
variable {k : Nat}
variable {ts : List Token}

/- Where the first parser stops, so does the second. -/
theorem stopped
    {fault : Fault}
    {rest : List Token}
    {o : Outcome α}
    {o' : Outcome β}
    (hFirst : EndAlike r k ts (.stopped fault rest) o)
    (hStops :
      ∀ rest', o = .stopped fault rest' →
        o' = .stopped fault rest') :
    EndAlike r k ts (.stopped fault rest) o' := by
  rcases hFirst with ⟨used, hTokens, hAgree⟩
  refine ⟨used, hTokens, fun hKnown => ?_⟩
  cases hAgree hKnown with
  | @stopped _ _ rest' hRest =>
      rw [hStops rest' rfl]
      exact .stopped hRest

/-
  What the first parser leaves over is still made of tokens
  that a scanner gives.
-/
theorem lexed
    {a : α}
    {mid : List Token}
    {o : Outcome α}
    (hFirst : EndAlike r k ts (.done a mid) o)
    (hLexed : Lexed ts) :
    Lexed mid := by
  rcases hFirst with ⟨used, rfl, -⟩
  intro t hMem
  exact hLexed t (List.mem_append_right used hMem)

/-
  Where the first parser is done, what follows has to end
  alike behind tokens and values that are alike.  What is
  past the known tokens need only leave an end of them.
-/
theorem next
    {a : α}
    {mid : List Token}
    {o : Outcome α}
    {next next' : Outcome β}
    (hFirst : EndAlike r k ts (.done a mid) o)
    (hEnd : ∃ more, mid = more ++ next.rest)
    (hNext :
      ∀ {j b mid'}, o = .done b mid' → Alike r a b →
        Aligned r j mid mid' →
        EndAlike r j mid next next') :
    EndAlike r k ts next next' := by
  rcases hFirst with ⟨used, hTokens, hAgree⟩
  have hTokens' : ts = used ++ mid := hTokens
  by_cases hKnown : used.length < k
  · cases hAgree hKnown with
    | done hValue hMid =>
        rcases hNext rfl hValue hMid with
          ⟨more, hRest, hAgree'⟩
        refine ⟨used ++ more, ?_, ?_⟩
        · rw [List.append_assoc, ← hRest]
          exact hTokens'
        · intro hAll
          rw [List.length_append] at hAll ⊢
          rw [← Nat.sub_sub]
          exact hAgree' (by omega)
  · rcases hEnd with ⟨more, hRest⟩
    refine ⟨used ++ more, ?_, ?_⟩
    · rw [List.append_assoc, ← hRest]
      exact hTokens'
    · intro hAll
      rw [List.length_append] at hAll
      omega

end EndAlike

namespace Parser

variable {α β : Type}
variable [Shaped α] [Shaped β]

/- The parsers end alike on all tokens that are aligned. -/
def Corresponds
    (r : Renaming)
    (p q : Parser α) : Prop :=
  ∀ k ts us,
    Aligned r k ts us → EndAlike r k ts (p ts) (q us)

namespace Corresponds

variable {r : Renaming}

------------------------------------------------------------
-- Sequences
------------------------------------------------------------

/-
  Parsers that pass no token correspond if their values are
  alike.
-/
theorem pure
    {a b : α}
    (hValue : Alike r a b) :
    Corresponds r (Pure.pure a : Parser α)
      (Pure.pure b) := by
  intro k ts us hAligned
  exact ⟨[], rfl, fun _ => .done hValue hAligned⟩

/- Parsers that fail with one fault correspond. -/
theorem fail
    (fault : Fault) :
    Corresponds r (Parser.fail fault : Parser α)
      (Parser.fail fault) := by
  intro k ts us hAligned
  exact ⟨[], rfl, fun _ => .stopped hAligned⟩

/-
  Parsers in sequence correspond, if the second ones do for
  values that are alike.
-/
theorem bind
    {p q : Parser α}
    {f g : α → Parser β}
    (hParser : p.Corresponds r q)
    (hNext :
      ∀ a b, Alike r a b → (f a).Corresponds r (g b)) :
    (p >>= f).Corresponds r (q >>= g) := by
  intro k ts us hAligned
  rw [bind_eq_andThen, bind_eq_andThen, andThen, andThen]
  have hFirst := hParser k ts us hAligned
  cases hLeft : p ts with
  | stopped fault rest =>
      rw [hLeft] at hFirst
      refine hFirst.stopped fun rest' hRight => ?_
      rw [hRight]
  | done a mid =>
      rw [hLeft] at hFirst
      have hLexed := hFirst.lexed hAligned.lexed
      refine hFirst.next ?_ ?_
      · rcases hNext a _ (alike_rename r a) 0 mid []
            (.zero hLexed []) with ⟨more, hRest, -⟩
        exact ⟨more, hRest⟩
      · intro j b mid' hRight hValue hMid
        rw [hRight]
        exact hNext a b hValue j mid mid' hMid

/-
  A function of the values can be applied if it keeps them
  alike.
-/
theorem map
    {p q : Parser α}
    {f g : α → β}
    (hParser : p.Corresponds r q)
    (hValue : ∀ a b, Alike r a b → Alike r (f a) (g b)) :
    (f <$> p).Corresponds r (g <$> q) :=
  hParser.bind fun a b hAlike => pure (hValue a b hAlike)

------------------------------------------------------------
-- Single Tokens
------------------------------------------------------------

/- To look at the next token is to see its renamed kind. -/
theorem peek :
    Parser.peek.Corresponds r Parser.peek := by
  intro k ts us hAligned
  refine ⟨[], rfl, fun hKnown => ?_⟩
  have hNext : Alike r (nextKind ts) (nextKind us) := by
    rw [hAligned.nextKind_eq hKnown]
    cases nextKind ts <;> rfl
  exact .done hNext hAligned

/- The next kind leads the same way when it is renamed. -/
theorem peek_bind
    {f g : Option TokenKind → Parser α}
    (hNone : (f none).Corresponds r (g none))
    (hSome :
      ∀ kind,
        (f (some kind)).Corresponds r
          (g (some (r.kind kind)))) :
    (Parser.peek >>= f).Corresponds r
      (Parser.peek >>= g) := by
  refine bind peek fun next next' hNext => ?_
  rcases hNext.option_cases with
    ⟨rfl, rfl⟩ | ⟨kind, kind', rfl, rfl, hKind⟩
  · exact hNone
  · have hSame : kind' = r.kind kind := hKind
    rw [hSame]
    exact hSome kind

/- What is made of a kind is renamed with the kind. -/
theorem accept
    {what : Expectation}
    {read : TokenKind → Option β}
    (hRead :
      ∀ kind : TokenKind, kind.IsProper →
        read (r.kind kind) =
          (read kind).map (Shaped.rename r)) :
    (Parser.accept what read).Corresponds r
      (Parser.accept what read) := by
  intro k ts us hAligned
  cases ts with
  | nil =>
      refine ⟨[], rfl, fun hKnown => ?_⟩
      obtain ⟨k, rfl⟩ :=
        Nat.exists_eq_succ_of_ne_zero hKnown.ne'
      rw [hAligned.of_nil]
      refine .stopped ?_
      rwa [hAligned.of_nil] at hAligned
  | cons t ts =>
      have hProper : t.kind.IsProper :=
        hAligned.lexed t List.mem_cons_self
      cases hKind : read t.kind with
      | none =>
          have hRun :
              Parser.accept what read (t :: ts) =
                .stopped (.expected what) (t :: ts) := by
            simp only [Parser.accept, hKind]
          rw [hRun]
          refine ⟨[], rfl, fun hKnown => ?_⟩
          obtain ⟨k, rfl⟩ :=
            Nat.exists_eq_succ_of_ne_zero hKnown.ne'
          rcases hAligned.of_cons with
            ⟨u, rest, rfl, hSame, -⟩
          have hNone : read u.kind = none := by
            rw [hSame, hRead _ hProper, hKind]
            rfl
          simp only [Parser.accept, hNone]
          exact .stopped hAligned
      | some b =>
          have hRun :
              Parser.accept what read (t :: ts) =
                .done (b, t.span) ts := by
            simp only [Parser.accept, hKind]
          rw [hRun]
          refine ⟨[t], rfl, fun hKnown => ?_⟩
          obtain ⟨k, rfl⟩ : ∃ n, k = n + 1 :=
            Nat.exists_eq_succ_of_ne_zero (by omega)
          rcases hAligned.of_cons with
            ⟨u, rest, rfl, hSame, hRest⟩
          have hSome :
              read u.kind = some (Shaped.rename r b) := by
            rw [hSame, hRead _ hProper, hKind]
            rfl
          simp only [Parser.accept, hSome]
          exact .done
            (alike_pair.mpr
              ⟨alike_rename r b, alike_span _ _⟩) hRest

/- A fixed kind is passed in the same places. -/
theorem token
    {what : Expectation}
    {kind : TokenKind}
    (hFixed : ∀ k, r.kind k = kind ↔ k = kind) :
    (Parser.token what kind).Corresponds r
      (Parser.token what kind) := by
  refine bind (accept ?_) fun a b _ => pure (alike_span _ _)
  intro k _
  simp only [hFixed]
  split <;> rfl

/-
  Keywords are not renamed, so they are passed in the same
  places.
-/
theorem keyword
    (k : Keyword) :
    (Parser.keyword k).Corresponds r (Parser.keyword k) :=
  token fun _ => r.kind_eq_keyword_iff

theorem punct
    (p : Punct) :
    (Parser.punct p).Corresponds r (Parser.punct p) :=
  token fun _ => r.kind_eq_punct_iff

/-
  Whether a fixed kind comes next is the same in both texts.
-/
theorem isAt
    {kind : TokenKind}
    (hFixed : ∀ k, r.kind k = kind ↔ k = kind) :
    (Parser.isAt kind).Corresponds r
      (Parser.isAt kind) := by
  refine peek_bind (pure rfl) fun k => pure ?_
  rw [alike_bool]
  simp [hFixed]

/-
  So a part that it leads to is there in both or in neither.
-/
theorem whenAt
    {kind : TokenKind}
    {p : Parser α}
    (hFixed : ∀ k, r.kind k = kind ↔ k = kind)
    (hPart : p.Corresponds r p) :
    (Parser.whenAt kind p).Corresponds r
      (Parser.whenAt kind p) := by
  refine bind (isAt hFixed) fun isThere isThere' hSame => ?_
  rw [alike_bool.mp hSame]
  cases isThere with
  | false => exact pure alike_none
  | true => exact hPart.map fun _ _ => alike_some.mpr

/-
  A keyword that may be missing is missing in both texts or
  in neither.
-/
theorem keyword?
    (k : Keyword) :
    (Parser.keyword? k).Corresponds r (Parser.keyword? k) :=
  whenAt (fun _ => r.kind_eq_keyword_iff) (keyword k)

theorem punct?
    (p : Punct) :
    (Parser.punct? p).Corresponds r (Parser.punct? p) :=
  whenAt (fun _ => r.kind_eq_punct_iff) (punct p)

/- A mark that may be there leads two ways. -/
theorem punct?_bind
    {f g : Option Span → Parser α}
    {p : Punct}
    (hNone : (f none).Corresponds r (g none))
    (hSome :
      ∀ s s', (f (some s)).Corresponds r (g (some s'))) :
    (Parser.punct? p >>= f).Corresponds r
      (Parser.punct? p >>= g) := by
  refine bind (punct? p) fun found found' hFound => ?_
  rcases hFound.option_cases with
    ⟨rfl, rfl⟩ | ⟨s, s', rfl, rfl, -⟩
  · exact hNone
  · exact hSome s s'

------------------------------------------------------------
-- Repetitions
------------------------------------------------------------

section Repetitions

variable {missing : Expectation}
variable {step : Parser (α ⊕ β)}
variable (hStep : step.Corresponds r step)
variable (hItems : step.ItemsAdvance)

include hStep hItems

/- Every item takes a token, so the fuel is never short. -/
theorem collectWithin
    {k : Nat}
    {found found' : List α}
    {fuel fuel' ts us : List Token}
    (hFound : Alike r found found')
    (hFuel : ts.length ≤ fuel.length)
    (hFuel' : us.length ≤ fuel'.length)
    (hAligned : Aligned r k ts us) :
    EndAlike r k ts
      (Parser.collectWithin missing step found fuel ts)
      (Parser.collectWithin missing step found' fuel'
        us) := by
  -- The induction is on the fuel of the first parser.
  induction hLength : fuel.length
    using Nat.strong_induction_on
    generalizing k found found' fuel fuel' ts us with
  | h n ih =>
      have hFirst := hStep k ts us hAligned
      cases hLeft : step ts with
      | stopped fault rest =>
          rw [hLeft] at hFirst
          rw [collectWithin_of_stopped hLeft]
          exact hFirst.stopped fun rest' hRight =>
            collectWithin_of_stopped hRight
      | done part mid =>
          rw [hLeft] at hFirst
          cases part with
          | inr c =>
              rw [collectWithin_of_last hLeft]
              refine hFirst.next ⟨[], rfl⟩ ?_
              intro j part mid' hRight hPart hMid
              rcases hPart.sum_cases with
                ⟨_, _, hInl, -⟩ | ⟨_, d, hInr, rfl, hLast⟩
              · cases hInl
              · cases hInr
                rw [collectWithin_of_last hRight]
                refine ⟨[], rfl, fun hKnown => ?_⟩
                exact .done
                  (alike_pair.mpr
                    ⟨alike_reverse.mpr hFound, hLast⟩) hMid
          | inl a =>
              rcases exists_collectWithin_of_item missing
                  found hItems hLeft hFuel with
                ⟨less, hLess, hEnough, hRun⟩
              rw [hRun]
              have hLexed := hFirst.lexed hAligned.lexed
              refine hFirst.next ?_ ?_
              · rcases ih less.length (hLength ▸ hLess)
                    (alike_rename r (a :: found)) hEnough
                    (Nat.le_refl ([] : List Token).length)
                    (.zero hLexed []) rfl with
                  ⟨more, hRest, -⟩
                exact ⟨more, hRest⟩
              · intro j part mid' hRight hPart hMid
                rcases hPart.sum_cases with
                  ⟨_, b, hInl, rfl, hItem⟩ | ⟨_, _, hInr, -⟩
                · cases hInl
                  rcases exists_collectWithin_of_item
                      missing found' hItems hRight hFuel'
                    with ⟨less', -, hEnough', hRun'⟩
                  rw [hRun']
                  exact ih less.length (hLength ▸ hLess)
                    (alike_cons.mpr ⟨hItem, hFound⟩) hEnough
                    hEnough' hMid rfl
                · cases hInr

/- A repetition takes as many items in both texts. -/
theorem collect :
    (Parser.collect missing step).Corresponds r
      (Parser.collect missing step) :=
  fun _ _ _ hAligned =>
    collectWithin hStep hItems alike_nil (Nat.le_refl _)
      (Nat.le_refl _) hAligned

end Repetitions

------------------------------------------------------------
-- Lists
------------------------------------------------------------

section Lists

variable {levels : Nat}
variable {item : Parser α}
variable (hItem : item.Corresponds r item)
variable (hPasses : item.Passes 1 levels)

include hItem hPasses

/- Items up to a closing mark are as many in both texts. -/
theorem itemsUntil
    (close : Punct) :
    (Parser.itemsUntil close item).Corresponds r
      (Parser.itemsUntil close item) := by
  have hStep :
      (untilStep close item).Corresponds r
        (untilStep close item) :=
    punct?_bind (hItem.map fun _ _ => alike_inl.mpr)
      fun _ _ => pure (alike_inr.mpr (alike_span _ _))
  exact collect hStep (.untilStep hPasses close)

theorem itemsAfter
    (mark : Punct) :
    (Parser.itemsAfter mark item).Corresponds r
      (Parser.itemsAfter mark item) := by
  have hStep :
      (afterStep mark item).Corresponds r
        (afterStep mark item) :=
    punct?_bind (pure (alike_inr.mpr (alike_unit _ _)))
      fun _ _ => hItem.map fun _ _ => alike_inl.mpr
  refine bind (collect hStep (.afterStep hPasses mark)) ?_
  rintro ⟨as, _⟩ ⟨bs, _⟩ hParts
  exact pure (alike_pair.mp hParts).1

theorem commaItems :
    (Parser.commaItems item).Corresponds r
      (Parser.commaItems item) :=
  bind hItem fun _ _ hFirst =>
    bind (itemsAfter hItem hPasses .comma)
      fun _ _ hMore => pure (alike_cons.mpr ⟨hFirst, hMore⟩)

/-
  A list that is closed by a mark has as many items in both
  texts.
-/
theorem commaList
    (close : Punct) :
    (Parser.commaList close item).Corresponds r
      (Parser.commaList close item) :=
  punct?_bind
    (bind (commaItems hItem hPasses) fun _ _ hItems =>
      bind (punct close) fun _ _ hStop =>
        pure (alike_pair.mpr ⟨hItems, hStop⟩))
    fun _ _ =>
      pure (alike_pair.mpr ⟨alike_nil, alike_span _ _⟩)

end Lists

end Corresponds

end Parser

end FeSyntax
