import FeSyntax.Proofs.Parsing.FirstToken
import FeSyntax.Proofs.Syntax.Shape

/-
  This file proves that the parsers that all others are
  built of are complete: where a spelling of a value can be
  read, and what comes next does not make it longer, the
  parser gives that value, up to spans.

  Key definitions include:
    * `EndsAlways`
    * `Parser.Complete`

  Key theorems include:
    * `Parser.exists_steps`
    * `Parser.itemsUntil_complete`
    * `Parser.commaList_complete`
    * `Parser.path_complete`
    * `Parser.typeParams_complete`
-/

namespace FeSyntax

/- Whatever comes next makes no tree longer. -/
def EndsAlways
    (_ : Option TokenKind) : Prop :=
  True

namespace Parser

variable {α β γ : Type}
variable {ts rest : List Token}

/-
  Wherever a spelling of a good value is read, and `follow`
  holds of the kind that comes next, the parser is done with
  a value of the same view.
-/
def Complete
    (p : Parser α)
    (spellings : α → Language TokenKind)
    (good : α → Prop)
    (follow : Option TokenKind → Prop)
    (view : α → γ) : Prop :=
  ∀ ⦃x : α⦄ ⦃ts rest : List Token⦄,
    good x →
    Reads ts (spellings x) rest →
    follow (nextKind rest) →
    ∃ y, p ts = .done y rest ∧ view y = view x

------------------------------------------------------------
-- Single Tokens
------------------------------------------------------------

theorem token_complete
    {what : Expectation}
    {kind : TokenKind}
    (hReads : Reads ts kind.written rest) :
    ∃ span, token what kind ts = .done span rest := by
  rcases reads_written_iff.mp hReads with ⟨t, rfl, hKind⟩
  exact ⟨t.span, token_eq_done.mpr ⟨t, rfl, hKind, rfl⟩⟩

theorem keyword_complete
    {k : Keyword}
    (hReads : Reads ts k.written rest) :
    ∃ span, keyword k ts = .done span rest :=
  token_complete hReads

theorem punct_complete
    {p : Punct}
    (hReads : Reads ts p.written rest) :
    ∃ span, punct p ts = .done span rest :=
  token_complete hReads

/- A token that may be left out must not come next then. -/
theorem token?_complete
    {what : Expectation}
    {kind : TokenKind}
    {isThere : Bool}
    (hReads :
      Reads ts (Spelling.present isThere kind.written) rest)
    (hNext :
      isThere = false → nextKind rest ≠ some kind) :
    ∃ o, whenAt kind (token what kind) ts = .done o rest ∧
      o.isSome = isThere := by
  cases isThere with
  | false =>
      have hEnd : ts = rest := reads_one_iff.mp hReads
      subst hEnd
      exact
        ⟨none,
          whenAt_eq_done.mpr (.inl ⟨hNext rfl, rfl, rfl⟩),
          rfl⟩
  | true =>
      rcases token_complete hReads with ⟨span, hToken⟩
      have hLead := nextKind_of_token hToken
      exact
        ⟨some span,
          whenAt_eq_done.mpr
            (.inr ⟨hLead, span, hToken, rfl⟩),
          rfl⟩

/-
  A keyword that may be left out is passed if it is there.
-/
theorem keyword?_complete
    {k : Keyword}
    {isThere : Bool}
    (hReads :
      Reads ts (Spelling.present isThere k.written) rest)
    (hNext :
      isThere = false →
        nextKind rest ≠ some (.keyword k)) :
    ∃ o, keyword? k ts = .done o rest ∧
      o.isSome = isThere :=
  token?_complete hReads hNext

/- Where it does not come next, nothing is passed. -/
theorem keyword?_none
    {k : Keyword}
    (hNext : nextKind ts ≠ some (.keyword k)) :
    keyword? k ts = .done none ts :=
  whenAt_eq_done.mpr (.inl ⟨hNext, rfl, rfl⟩)

/-
  An optional part behind a token that leads to it.  If it
  is left out, that token must not come next.
-/
theorem whenAt_complete
    {what : Expectation}
    {lead : TokenKind}
    {p : Parser α}
    {spellings : α → Language TokenKind}
    {good : α → Prop}
    {follow : Option TokenKind → Prop}
    {view : α → γ}
    {o : Option α}
    (hPart : p.Complete spellings good follow view)
    (hGood : ∀ a ∈ o, good a)
    (hReads :
      Reads ts (Spelling.behind lead (o.map spellings))
        rest)
    (hFollow : follow (nextKind rest))
    (hNext : nextKind rest ≠ some lead) :
    ∃ o', whenAt lead (do let _ ← token what lead; p) ts =
        .done o' rest ∧ o'.map view = o.map view := by
  cases o with
  | none =>
      have hEnd : ts = rest := reads_one_iff.mp hReads
      subst hEnd
      exact
        ⟨none, whenAt_eq_done.mpr (.inl ⟨hNext, rfl, rfl⟩),
          rfl⟩
  | some a =>
      rcases reads_mul_iff.mp hReads with
        ⟨mid, hLead, hReads⟩
      rcases token_complete hLead with ⟨span, hToken⟩
      rcases hPart (hGood a rfl) hReads hFollow with
        ⟨a', hParse, hSame⟩
      refine
        ⟨some a', whenAt_eq_done.mpr (.inr ?_),
          congrArg some hSame⟩
      exact
        ⟨nextKind_of_token hToken, a',
          bind_eq_done.mpr ⟨span, mid, hToken, hParse⟩, rfl⟩

------------------------------------------------------------
-- Names And Literals
------------------------------------------------------------

/- Whatever follows a name, it is read back. -/
theorem identifier_complete :
    identifier.Complete Identifier.spellings
      (fun _ => True) EndsAlways
      (Identifier.mapSpans .forget) := by
  intro i ts rest _ hReads _
  rcases reads_written_iff.mp hReads with ⟨t, rfl, hKind⟩
  refine ⟨⟨i.name, t.span⟩, ?_, rfl⟩
  simp only [identifier, bind_eq_done, pure_eq_done,
    Prod.exists, accept_eq_done]
  exact
    ⟨i.name, t.span, rest, ⟨t, rfl, by simp [hKind], rfl⟩,
      rfl, rfl⟩

theorem literal_complete
    {what : Expectation} :
    (literal what).Complete Literal.spellings
      (fun _ => True) EndsAlways
      (Literal.mapSpans .forget) := by
  intro l ts rest _ hReads _
  rcases reads_written_iff.mp hReads with ⟨t, rfl, hKind⟩
  refine ⟨⟨l.value, t.span⟩, ?_, rfl⟩
  simp only [literal, bind_eq_done, pure_eq_done,
    Prod.exists, accept_eq_done]
  exact
    ⟨l.value, t.span, rest,
      ⟨t, rfl, TokenKind.literal?_eq_some.mpr hKind, rfl⟩,
      rfl, rfl⟩

------------------------------------------------------------
-- Repetitions
------------------------------------------------------------

section Repetitions

variable {spellings : α → Language TokenKind}
variable {good : α → Prop}
variable {follow : Option TokenKind → Prop}
variable {first : TokenKind → Prop}
variable {view : α → γ}

/-
  A step that reads each item back, and then the last part,
  reads all items back.  Behind an item comes the first
  token of the next one, or of the last part.
-/
theorem exists_steps
    {step : Parser (α ⊕ β)}
    {last : Language TokenKind}
    {goodLast : β → Prop}
    {as : List α}
    (hStep :
      ∀ {ts mid} {a : α}, good a →
        Reads ts (spellings a) mid →
        follow (nextKind mid) →
        ∃ y, step ts = .done (.inl y) mid ∧ view y = view a)
    (hLast :
      ∀ {ts}, Reads ts last rest →
        follow (nextKind ts) ∧
        ∃ b, step ts = .done (.inr b) rest ∧ goodLast b)
    (hStart :
      ∀ a, good a → StartsWith first (spellings a))
    (hFirst : ∀ kind, first kind → follow (some kind))
    (hGood : ∀ a ∈ as, good a)
    (hReads :
      Reads ts ((as.map spellings).prod * last) rest) :
    ∃ ys b, Steps step ts ys b rest ∧
      ys.length ≤ ts.length ∧
      ys.map view = as.map view ∧ goodLast b := by
  induction as generalizing ts with
  | nil =>
      rw [List.map_nil, List.prod_nil, one_mul] at hReads
      rcases hLast hReads with ⟨-, b, hParse, hGoodLast⟩
      exact
        ⟨[], b, .last hParse, Nat.zero_le _, rfl, hGoodLast⟩
  | cons a as ih =>
      rw [List.forall_mem_cons] at hGood
      rw [List.map_cons, List.prod_cons,
        mul_assoc] at hReads
      rcases reads_mul_iff.mp hReads with
        ⟨mid, hItem, hMore⟩
      have hFollow : follow (nextKind mid) := by
        cases as with
        | nil =>
            rw [List.map_nil, List.prod_nil,
              one_mul] at hMore
            exact (hLast hMore).1
        | cons b bs =>
            rw [List.map_cons, List.prod_cons,
              mul_assoc] at hMore
            have hGoodNext := hGood.2 b List.mem_cons_self
            have hStartNext := hStart b hGoodNext
            rcases hMore.exists_nextKind hStartNext.mul with
              ⟨kind, hNext, hKind⟩
            rw [hNext]
            exact hFirst kind hKind
      rcases hStep hGood.1 hItem hFollow with
        ⟨y, hParse, hSame⟩
      rcases ih hGood.2 hMore with
        ⟨ys, b, hSteps, hLength, hSameItems, hGoodLast⟩
      have hShorter :=
        hItem.length_lt (hStart a hGood.1)
      refine
        ⟨y :: ys, b, .item hParse hSteps, ?_, ?_, hGoodLast⟩
      · rw [List.length_cons]
        omega
      · rw [List.map_cons, List.map_cons, hSame, hSameItems]

------------------------------------------------------------
-- Lists
------------------------------------------------------------

variable {item : Parser α}

/-
  Items up to a closing mark are read back, since no item
  starts with the mark.
-/
theorem itemsUntil_complete
    {close : Punct}
    (hItem : item.Complete spellings good follow view)
    (hStart :
      ∀ a, good a → StartsWith first (spellings a))
    (hNotClose : ¬ first (.punct close))
    (hFirst : ∀ kind, first kind → follow (some kind))
    (hFollow : follow (some (.punct close))) :
    (itemsUntil close item).Complete
      (fun parts =>
        (parts.1.map spellings).prod * close.written)
      (fun parts => ∀ a ∈ parts.1, good a)
      EndsAlways
      (fun parts => parts.1.map view) := by
  intro parts ts rest hGood hReads _
  have hStep :
      ∀ {ts mid} {a : α}, good a →
        Reads ts (spellings a) mid →
        follow (nextKind mid) →
        ∃ y, untilStep close item ts = .done (.inl y) mid ∧
          view y = view a := by
    intro ts mid a hGood hReads hNext
    rcases hItem hGood hReads hNext with ⟨y, hParse, hSame⟩
    have hNotEnd :=
      hReads.nextKind_ne (hStart a hGood) hNotClose
    exact
      ⟨y,
        untilStep_eq_done.mpr
          (.inl ⟨hNotEnd, y, hParse, rfl⟩),
        hSame⟩
  have hLast :
      ∀ {ts}, Reads ts close.written rest →
        follow (nextKind ts) ∧
        ∃ span, untilStep close item ts =
          .done (.inr span) rest ∧ True := by
    intro ts hReads
    rcases punct_complete hReads with ⟨span, hClose⟩
    rw [nextKind_of_punct hClose]
    exact
      ⟨hFollow, span,
        untilStep_eq_done.mpr (.inr ⟨span, hClose, rfl⟩),
        trivial⟩
  rcases exists_steps hStep hLast hStart hFirst hGood hReads
    with ⟨ys, span, hSteps, hLength, hSame, -⟩
  exact
    ⟨(ys, span), itemsUntil_eq_done.mpr ⟨hLength, hSteps⟩,
      hSame⟩

/-
  Items that follow a mark each are read back, unless one
  more mark follows.
-/
theorem itemsAfter_complete
    {mark : Punct}
    (hItem : item.Complete spellings good follow view)
    (hMark : follow (some (.punct mark))) :
    (itemsAfter mark item).Complete
      (fun as =>
        ((as.map spellings).map (mark.written * ·)).prod)
      (fun as => ∀ a ∈ as, good a)
      (fun next =>
        follow next ∧ next ≠ some (.punct mark))
      (List.map view) := by
  intro as ts rest hGood hReads hNext
  have hStep :
      ∀ {ts mid} {a : α}, good a →
        Reads ts (mark.written * spellings a) mid →
        follow (nextKind mid) →
        ∃ y, afterStep mark item ts = .done (.inl y) mid ∧
          view y = view a := by
    intro ts mid a hGood hReads hNext
    rcases reads_mul_iff.mp hReads with ⟨ts₁, hMark, hReads⟩
    rcases punct_complete hMark with ⟨span, hMark⟩
    rcases hItem hGood hReads hNext with ⟨y, hParse, hSame⟩
    exact
      ⟨y,
        afterStep_eq_done.mpr
          (.inr ⟨span, ts₁, hMark, y, hParse, rfl⟩),
        hSame⟩
  have hLast :
      ∀ {ts}, Reads ts 1 rest →
        follow (nextKind ts) ∧
        ∃ b, afterStep mark item ts = .done (.inr b) rest ∧
          True := by
    intro ts hReads
    have hEnd : ts = rest := reads_one_iff.mp hReads
    subst hEnd
    exact
      ⟨hNext.1, (),
        afterStep_eq_done.mpr (.inl ⟨hNext.2, rfl, rfl⟩),
        trivial⟩
  have hStart :
      ∀ a, good a →
        StartsWith (· = .punct mark)
          (mark.written * spellings a) :=
    fun a _ => (StartsWith.written_self _).mul
  have hFirst :
      ∀ kind, kind = .punct mark → follow (some kind) := by
    rintro kind rfl
    exact hMark
  have hReadsAll :
      Reads ts
        ((as.map fun a => mark.written * spellings a).prod *
          1)
        rest := by
    simp only [List.map_map] at hReads
    rw [mul_one]
    exact hReads
  rcases exists_steps hStep hLast hStart hFirst hGood
      hReadsAll with
    ⟨ys, _, hSteps, hLength, hSame, -⟩
  exact
    ⟨ys, itemsAfter_eq_done.mpr ⟨hLength, hSteps⟩, hSame⟩

/- The first item stands without a mark in front. -/
theorem separated_complete
    {mark : Punct}
    {a : α}
    {as : List α}
    (hItem : item.Complete spellings good follow view)
    (hMark : follow (some (.punct mark)))
    (hGood : ∀ b ∈ a :: as, good b)
    (hReads :
      Reads ts
        (Spelling.separated mark ((a :: as).map spellings))
        rest)
    (hFollow : follow (nextKind rest))
    (hNext : nextKind rest ≠ some (.punct mark)) :
    ∃ y mid ys, item ts = .done y mid ∧
      itemsAfter mark item mid = .done ys rest ∧
      (y :: ys).map view = (a :: as).map view := by
  rw [List.forall_mem_cons] at hGood
  rcases reads_mul_iff.mp hReads with ⟨mid, hFirst, hMore⟩
  have hFollowFirst : follow (nextKind mid) := by
    cases as with
    | nil =>
        have hEnd : mid = rest := reads_one_iff.mp hMore
        subst hEnd
        exact hFollow
    | cons b bs =>
        rw [List.map_cons, List.map_cons, List.prod_cons,
          mul_assoc] at hMore
        rw [hMore.nextKind_eq]
        exact hMark
  rcases hItem hGood.1 hFirst hFollowFirst with
    ⟨y, hParse, hSame⟩
  rcases itemsAfter_complete hItem hMark hGood.2 hMore
      ⟨hFollow, hNext⟩ with
    ⟨ys, hParseMore, hSameMore⟩
  refine ⟨y, mid, ys, hParse, hParseMore, ?_⟩
  rw [List.map_cons, List.map_cons, hSame, hSameMore]

/-
  Items between commas are read back, unless one more comma
  follows.
-/
theorem commaItems_complete
    (hItem : item.Complete spellings good follow view)
    (hComma : follow (some (.punct .comma))) :
    (commaItems item).Complete
      (fun as =>
        Spelling.separated .comma (as.map spellings))
      (fun as => as ≠ [] ∧ ∀ a ∈ as, good a)
      (fun next =>
        follow next ∧ next ≠ some (.punct .comma))
      (List.map view) := by
  intro as ts rest hItems hReads hEnds
  rcases hItems with ⟨hNotNil, hGood⟩
  rcases hEnds with ⟨hFollow, hNext⟩
  cases as with
  | nil => exact absurd rfl hNotNil
  | cons a as =>
      rcases separated_complete hItem hComma hGood hReads
          hFollow hNext with
        ⟨y, mid, ys, hParse, hMore, hSame⟩
      refine ⟨y :: ys, ?_, hSame⟩
      simp only [commaItems, bind_eq_done, pure_eq_done]
      exact ⟨y, mid, hParse, ys, rest, hMore, rfl, rfl⟩

/-
  A list that is closed by a mark is read back, with or
  without a comma at its end.
-/
theorem commaList_complete
    {close : Punct}
    (hItem : item.Complete spellings good follow view)
    (hComma : follow (some (.punct .comma)))
    (hClose : follow (some (.punct close)))
    (hNotComma : close ≠ .comma)
    (hStart :
      ∀ a, good a →
        StartsWith (· ≠ .punct close) (spellings a)) :
    (commaList close item).Complete
      (fun parts =>
        Spelling.separated .comma (parts.1.map spellings) *
          close.written)
      (fun parts => ∀ a ∈ parts.1, good a)
      EndsAlways
      (fun parts => parts.1.map view) := by
  intro x ts rest hGood hReads _
  rcases x with ⟨as, _⟩
  rcases reads_mul_iff.mp hReads with
    ⟨mid, hItems, hReadsClose⟩
  rcases punct_complete hReadsClose with ⟨span, hParseClose⟩
  have hNextClose := nextKind_of_punct hParseClose
  cases as with
  | nil =>
      have hEnd : ts = mid := reads_one_iff.mp hItems
      subst hEnd
      refine ⟨([], span), ?_, rfl⟩
      exact bind_eq_done.mpr
        ⟨some span, rest,
          punct?_eq_done.mpr
            (.inr ⟨span, hParseClose, rfl⟩),
          pure_eq_done.mpr ⟨rfl, rfl⟩⟩
  | cons a as =>
      rcases commaItems_complete hItem hComma
          ⟨List.cons_ne_nil a as, hGood⟩ hItems
          (by
            rw [hNextClose]
            exact ⟨hClose, by simpa using hNotComma⟩) with
        ⟨ys, hParse, hSame⟩
      have hNext : nextKind ts ≠ some (.punct close) := by
        rcases reads_mul_iff.mp hItems with
          ⟨first, hFirst, -⟩
        have hGoodFirst := hGood a List.mem_cons_self
        have hStartFirst := hStart a hGoodFirst
        exact hFirst.nextKind_ne hStartFirst (by simp)
      refine ⟨(ys, span), ?_, hSame⟩
      refine bind_eq_done.mpr
        ⟨none, ts,
          punct?_eq_done.mpr (.inl ⟨hNext, rfl, rfl⟩), ?_⟩
      simp only [bind_eq_done, pure_eq_done]
      exact
        ⟨ys, mid, hParse, span, rest, hParseClose, rfl, rfl⟩

end Repetitions

------------------------------------------------------------
-- Paths And Type Parameters
------------------------------------------------------------

/- A path is read back, unless another `::` follows. -/
theorem path_complete :
    path.Complete Path.spellings (fun p => p.segments ≠ [])
      (fun next => next ≠ some (.punct .colonColon))
      (Path.mapSpans .forget) := by
  intro x ts rest hSegments hReads hNext
  rcases x with ⟨segments, span⟩
  cases segments with
  | nil => exact absurd rfl hSegments
  | cons a as =>
      rcases separated_complete identifier_complete trivial
          (fun _ _ => trivial) hReads trivial hNext with
        ⟨y, mid, ys, hParse, hMore, hSame⟩
      let last := ys.getLastD y
      refine
        ⟨⟨y :: ys, y.span.through last.span⟩, ?_, ?_⟩
      · simp only [path, bind_eq_done, pure_eq_done]
        exact ⟨y, mid, hParse, ys, rest, hMore, rfl, rfl⟩
      · rw [Path.mapSpans, Path.mapSpans, hSame]
        rfl

/-
  Type parameters are read back; if there are none, no `<`
  may follow.
-/
theorem typeParams_complete :
    typeParams.Complete Identifier.typeParamSpellings
      (fun _ => True)
      (fun next => next ≠ some (.punct .leftAngle))
      (List.map (Identifier.mapSpans .forget)) := by
  intro names ts rest _ hReads hNext
  cases names with
  | nil =>
      have hEnd : ts = rest := reads_one_iff.mp hReads
      subst hEnd
      refine ⟨[], ?_, rfl⟩
      exact bind_eq_done.mpr
        ⟨none, ts,
          punct?_eq_done.mpr (.inl ⟨hNext, rfl, rfl⟩),
          pure_eq_done.mpr ⟨rfl, rfl⟩⟩
  | cons a as =>
      simp only [Identifier.typeParamSpellings, mul_assoc,
        reads_mul_iff] at hReads
      rcases hReads with ⟨ts₁, hOpen, ts₂, hNames, hClose⟩
      rcases punct_complete hOpen with ⟨start, hOpen⟩
      rcases punct_complete hClose with ⟨stop, hClose⟩
      rcases commaItems_complete identifier_complete trivial
          ⟨List.cons_ne_nil a as, fun _ _ => trivial⟩ hNames
          (by
            rw [nextKind_of_punct hClose]
            exact ⟨trivial, by simp⟩) with
        ⟨ys, hParse, hSame⟩
      refine ⟨ys, ?_, hSame⟩
      refine bind_eq_done.mpr
        ⟨some start, ts₁,
          punct?_eq_done.mpr (.inr ⟨start, hOpen, rfl⟩), ?_⟩
      simp only [bind_eq_done, pure_eq_done]
      exact ⟨ys, ts₂, hParse, stop, rest, hClose, rfl, rfl⟩

end Parser

end FeSyntax
