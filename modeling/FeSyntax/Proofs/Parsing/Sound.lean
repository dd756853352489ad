import FeSyntax.Proofs.Parsing.Reads

/-
  This file proves that the parsers that all others are
  built of are sound: when one of them is done, the tokens
  that it has passed are a spelling of the value it gives.

  Key definitions include:
    * `Parser.Sound`

  Key theorems include:
    * `Parser.collect_sound`
    * `Parser.itemsUntil_sound`
    * `Parser.commaList_sound`
    * `Parser.path_sound`
    * `Parser.typeParams_sound`
-/

namespace FeSyntax

namespace Parser

variable {α β : Type}
variable {ts rest : List Token}

/-
  Whenever the parser is done, it has read a spelling of its
  value, and the value is a good one.
-/
def Sound
    (p : Parser α)
    (spellings : α → Language TokenKind)
    (good : α → Prop) : Prop :=
  ∀ ⦃ts rest : List Token⦄ ⦃a : α⦄,
    Lexed ts →
    p ts = .done a rest →
    Reads ts (spellings a) rest ∧ good a

------------------------------------------------------------
-- Single Tokens
------------------------------------------------------------

theorem reads_of_token
    {what : Expectation}
    {kind : TokenKind}
    {span : Span}
    (hParse : token what kind ts = .done span rest) :
    Reads ts kind.written rest := by
  rcases token_eq_done.mp hParse with ⟨t, hTokens, hKind, -⟩
  exact reads_written_iff.mpr ⟨t, hTokens, hKind⟩

theorem reads_of_keyword
    {k : Keyword}
    {span : Span}
    (hParse : keyword k ts = .done span rest) :
    Reads ts k.written rest :=
  reads_of_token hParse

theorem reads_of_punct
    {p : Punct}
    {span : Span}
    (hParse : punct p ts = .done span rest) :
    Reads ts p.written rest :=
  reads_of_token hParse

/- An optional token, and why it is not there if not. -/
theorem reads_of_token?
    {what : Expectation}
    {kind : TokenKind}
    {o : Option Span}
    (hParse :
      whenAt kind (token what kind) ts = .done o rest) :
    Reads ts (Spelling.present o.isSome kind.written) rest ∧
      (o.isSome = false → nextKind rest ≠ some kind) := by
  rcases whenAt_eq_done.mp hParse with
    ⟨hNext, rfl, rfl⟩ | ⟨hNext, span, hToken, rfl⟩
  · exact ⟨.refl _, fun _ => hNext⟩
  · exact ⟨reads_of_token hToken, by simp⟩

/-
  A keyword that may be missing is read if it is there, and
  otherwise does not come next.
-/
theorem reads_of_keyword?
    {k : Keyword}
    {o : Option Span}
    (hParse : keyword? k ts = .done o rest) :
    Reads ts (Spelling.present o.isSome k.written) rest ∧
      (o.isSome = false →
        nextKind rest ≠ some (.keyword k)) :=
  reads_of_token? hParse

/- An optional part behind a token that leads to it. -/
theorem reads_of_whenAt
    {what : Expectation}
    {lead : TokenKind}
    {p : Parser α}
    {spellings : α → Language TokenKind}
    {good : α → Prop}
    {o : Option α}
    (hSound : p.Sound spellings good)
    (hLexed : Lexed ts)
    (hParse :
      whenAt lead (do let _ ← token what lead; p) ts =
        .done o rest) :
    Reads ts (Spelling.behind lead (o.map spellings)) rest ∧
      ∀ a ∈ o, good a := by
  rcases whenAt_eq_done.mp hParse with
    ⟨-, rfl, rfl⟩ | ⟨-, a, hPart, rfl⟩
  · exact ⟨.refl _, by simp⟩
  · rcases bind_eq_done.mp hPart with ⟨_, mid, hLead, hPart⟩
    have hReadsLead := reads_of_token hLead
    rcases hSound (hReadsLead.lexed hLexed) hPart with
      ⟨hReads, hGood⟩
    exact ⟨hReadsLead.mul hReads, by simpa using hGood⟩

------------------------------------------------------------
-- Names And Literals
------------------------------------------------------------

/- A name that is given has been read. -/
theorem identifier_sound :
    identifier.Sound Identifier.spellings
      (fun _ => True) := by
  intro ts rest i hLexed hParse
  simp only [identifier, bind_eq_done, pure_eq_done,
    Prod.exists, accept_eq_done] at hParse
  rcases hParse with
    ⟨name, span, _, ⟨t, rfl, hWord, rfl⟩, rfl, rfl⟩
  have hKind : t.kind = TokenKind.ofWord name :=
    hLexed t List.mem_cons_self name hWord
  exact ⟨reads_written_iff.mpr ⟨t, rfl, hKind⟩, trivial⟩

/- A literal that is given has been read, with its value. -/
theorem literal_sound
    {what : Expectation} :
    (literal what).Sound Literal.spellings
      (fun _ => True) := by
  intro ts rest l hLexed hParse
  simp only [literal, bind_eq_done, pure_eq_done,
    Prod.exists, accept_eq_done] at hParse
  rcases hParse with
    ⟨value, span, _, ⟨t, rfl, hLiteral, rfl⟩, rfl, rfl⟩
  have hKind : t.kind = value.kind :=
    TokenKind.literal?_eq_some.mp hLiteral
  exact ⟨reads_written_iff.mpr ⟨t, rfl, hKind⟩, trivial⟩

------------------------------------------------------------
-- Repetitions
------------------------------------------------------------

section Repetitions

variable {spellings : α → Language TokenKind}
variable {lastSpellings : β → Language TokenKind}
variable {good : α → Prop}
variable {goodLast : β → Prop}

/-
  A sound step reads one item after the other, and then the
  last part.
-/
theorem Steps.reads
    {step : Parser (α ⊕ β)}
    {as : List α}
    {b : β}
    (hStep :
      step.Sound (Sum.elim spellings lastSpellings)
        (Sum.elim good goodLast))
    (hSteps : Steps step ts as b rest)
    (hLexed : Lexed ts) :
    Reads ts ((as.map spellings).prod * lastSpellings b)
        rest ∧
      (∀ a ∈ as, good a) ∧ goodLast b := by
  induction hSteps with
  | last hLast =>
      rcases hStep hLexed hLast with ⟨hReads, hGood⟩
      refine ⟨?_, by simp, hGood⟩
      rw [List.map_nil, List.prod_nil, one_mul]
      exact hReads
  | item hItem hMore ih =>
      rcases hStep hLexed hItem with ⟨hReadsItem, hGood⟩
      rcases ih (hReadsItem.lexed hLexed) with
        ⟨hReads, hGoodItems, hGoodLast⟩
      refine ⟨?_, ?_, hGoodLast⟩
      · rw [List.map_cons, List.prod_cons, mul_assoc]
        exact hReadsItem.mul hReads
      · exact List.forall_mem_cons.mpr ⟨hGood, hGoodItems⟩

/-
  A repetition has read its items and its last part, and all
  of them are good.
-/
theorem collect_sound
    {missing : Expectation}
    {step : Parser (α ⊕ β)}
    (hStep :
      step.Sound (Sum.elim spellings lastSpellings)
        (Sum.elim good goodLast)) :
    (collect missing step).Sound
      (fun parts =>
        (parts.1.map spellings).prod *
          lastSpellings parts.2)
      (fun parts =>
        (∀ a ∈ parts.1, good a) ∧ goodLast parts.2) := by
  intro ts rest parts hLexed hParse
  rcases parts with ⟨as, b⟩
  exact (collect_eq_done.mp hParse).2.reads hStep hLexed

------------------------------------------------------------
-- Lists
------------------------------------------------------------

variable {item : Parser α}

/-
  Items up to a closing mark have been read with the mark.
-/
theorem itemsUntil_sound
    {close : Punct}
    (hItem : item.Sound spellings good) :
    (itemsUntil close item).Sound
      (fun parts =>
        (parts.1.map spellings).prod * close.written)
      (fun parts => ∀ a ∈ parts.1, good a) := by
  have hStep :
      (untilStep close item).Sound
        (Sum.elim spellings fun _ => close.written)
        (Sum.elim good fun _ => True) := by
    intro ts rest part hLexed hParse
    rcases untilStep_eq_done.mp hParse with
      ⟨-, a, hParseItem, rfl⟩ | ⟨span, hClose, rfl⟩
    · exact hItem hLexed hParseItem
    · exact ⟨reads_of_punct hClose, trivial⟩
  intro ts rest parts hLexed hParse
  rcases (itemsUntil_eq_done.mp hParse).2.reads hStep hLexed
    with ⟨hReads, hGood, -⟩
  exact ⟨hReads, hGood⟩

/-
  Items that follow a mark each have been read with their
  marks.
-/
theorem itemsAfter_sound
    {mark : Punct}
    (hItem : item.Sound spellings good) :
    (itemsAfter mark item).Sound
      (fun as =>
        ((as.map spellings).map (mark.written * ·)).prod)
      (fun as => ∀ a ∈ as, good a) := by
  have hStep :
      (afterStep mark item).Sound
        (Sum.elim (fun a => mark.written * spellings a)
          fun _ => 1)
        (Sum.elim good fun _ => True) := by
    intro ts rest part hLexed hParse
    rcases afterStep_eq_done.mp hParse with
      ⟨-, rfl, rfl⟩ | ⟨span, mid, hMark, a, hParseItem, rfl⟩
    · exact ⟨.refl _, trivial⟩
    · have hReadsMark := reads_of_punct hMark
      rcases hItem (hReadsMark.lexed hLexed) hParseItem with
        ⟨hReads, hGood⟩
      exact ⟨hReadsMark.mul hReads, hGood⟩
  intro ts rest as hLexed hParse
  rcases (itemsAfter_eq_done.mp hParse).2.reads hStep hLexed
    with ⟨hReads, hGood, -⟩
  refine ⟨?_, hGood⟩
  rw [mul_one] at hReads
  simp only [List.map_map]
  exact hReads

/- A list with marks between its items is not empty. -/
theorem commaItems_sound
    (hItem : item.Sound spellings good) :
    (commaItems item).Sound
      (fun as =>
        Spelling.separated .comma (as.map spellings))
      (fun as => as ≠ [] ∧ ∀ a ∈ as, good a) := by
  intro ts rest as hLexed hParse
  simp only [commaItems, bind_eq_done,
    pure_eq_done] at hParse
  rcases hParse with
    ⟨first, mid, hFirst, more, _, hMore, rfl, rfl⟩
  rcases hItem hLexed hFirst with ⟨hReadsFirst, hGoodFirst⟩
  rcases itemsAfter_sound hItem (hReadsFirst.lexed hLexed)
      hMore with
    ⟨hReadsMore, hGoodMore⟩
  exact
    ⟨hReadsFirst.mul hReadsMore, List.cons_ne_nil _ _,
      List.forall_mem_cons.mpr ⟨hGoodFirst, hGoodMore⟩⟩

/-
  A list has been read with its closing mark, with a comma
  before that or not.
-/
theorem commaList_sound
    {close : Punct}
    (hItem : item.Sound spellings good) :
    (commaList close item).Sound
      (fun parts =>
        Spelling.separated .comma (parts.1.map spellings) *
          close.written)
      (fun parts => ∀ a ∈ parts.1, good a) := by
  intro ts rest parts hLexed hParse
  rcases bind_eq_done.mp hParse with
    ⟨closed, mid, hMark, hParse⟩
  rcases punct?_eq_done.mp hMark with
    ⟨-, rfl, rfl⟩ | ⟨span, hClose, rfl⟩
  · simp only [bind_eq_done, pure_eq_done] at hParse
    rcases hParse with
      ⟨as, _, hItems, span, _, hClose, rfl, rfl⟩
    rcases commaItems_sound hItem hLexed hItems with
      ⟨hReads, -, hGood⟩
    exact ⟨hReads.mul (reads_of_punct hClose), hGood⟩
  · rcases pure_eq_done.mp hParse with ⟨rfl, rfl⟩
    refine ⟨?_, by simp⟩
    exact (Reads.refl ts).mul (reads_of_punct hClose)

end Repetitions

------------------------------------------------------------
-- Paths And Type Parameters
------------------------------------------------------------

/-
  A path has been read with all its marks, and has a
  segment.
-/
theorem path_sound :
    path.Sound Path.spellings
      (fun p => p.segments ≠ []) := by
  intro ts rest p hLexed hParse
  simp only [path, bind_eq_done, pure_eq_done] at hParse
  rcases hParse with
    ⟨first, mid, hFirst, more, _, hMore, rfl, rfl⟩
  rcases identifier_sound hLexed hFirst with
    ⟨hReadsFirst, -⟩
  rcases itemsAfter_sound identifier_sound
      (hReadsFirst.lexed hLexed) hMore with
    ⟨hReadsMore, -⟩
  exact ⟨hReadsFirst.mul hReadsMore, List.cons_ne_nil _ _⟩

/-
  Type parameters have been read between their angles, if
  there are any.
-/
theorem typeParams_sound :
    typeParams.Sound Identifier.typeParamSpellings
      (fun _ => True) := by
  intro ts rest names hLexed hParse
  rcases bind_eq_done.mp hParse with
    ⟨opened, mid, hMark, hParse⟩
  rcases punct?_eq_done.mp hMark with
    ⟨-, rfl, rfl⟩ | ⟨span, hOpen, rfl⟩
  · rcases pure_eq_done.mp hParse with ⟨rfl, rfl⟩
    exact ⟨.refl _, trivial⟩
  · simp only [bind_eq_done, pure_eq_done] at hParse
    rcases hParse with
      ⟨names, _, hNames, _, _, hClose, rfl, rfl⟩
    have hReadsOpen := reads_of_punct hOpen
    rcases commaItems_sound identifier_sound
        (hReadsOpen.lexed hLexed) hNames with
      ⟨hReads, hNotNil, -⟩
    refine ⟨?_, trivial⟩
    cases names with
    | nil => exact absurd rfl hNotNil
    | cons name names =>
        have hReadsClose := reads_of_punct hClose
        exact (hReadsOpen.mul hReads).mul hReadsClose

end Parser

end FeSyntax
