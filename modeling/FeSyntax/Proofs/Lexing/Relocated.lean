import FeSyntax.Proofs.Lexing.Blanks
import FeSyntax.Proofs.Lexing.Tiling
import FeSyntax.Proofs.Syntax.Relocation
import Mathlib.Data.List.DropRight

/-
  This file proves that the tokens of a part of a text do
  not depend on where the part stands.  They are the same
  when the part is cut out of its text, and when other lines
  are put in front of it; only their places differ.

  Key definitions include:
    * `Scanner.Scans`
    * `lineFeeds`

  Key theorems include:
    * `Scanner.Scans.carried`
    * `Scanner.tokens_carried`
    * `tokenize_slice`
    * `tokenize_append_lineFeed`
-/

namespace FeSyntax

namespace Scanner

------------------------------------------------------------
-- Runs Of Steps
------------------------------------------------------------

/- A scanner gives some tokens in turn, and is then left. -/
inductive Scans :
    Scanner → List Token → Scanner → Prop where
  | nil
      (s : Scanner) :
      Scans s [] s
  | cons
      {s last : Scanner}
      {ts : List Token}
      (hMore : s.skipBlanks.rest ≠ [])
      (hRest : Scans s.next.2 ts last) :
      Scans s (s.next.1 :: ts) last

section Runs

variable {s last : Scanner}
variable {ts us : List Token}

theorem Scans.of_next
    {t : Token}
    {s' : Scanner}
    (hMore : s.skipBlanks.rest ≠ [])
    (hNext : s.next = (t, s'))
    (hRest : Scans s' ts last) :
    Scans s (t :: ts) last := by
  have hToken : s.next.1 = t := congrArg Prod.fst hNext
  have hLeft : s.next.2 = s' := congrArg Prod.snd hNext
  rw [← hToken]
  rw [← hLeft] at hRest
  exact .cons hMore hRest

/- The tokens that are left come from where it is left. -/
theorem Scans.tokens_eq
    (hScans : Scans s ts last) :
    s.tokens = ts ++ last.tokens := by
  induction hScans with
  | nil s => rfl
  | cons hMore hRest ih =>
      rw [tokens_of_more hMore, ih, List.cons_append]

/- A scanner can be left in front of any of its tokens. -/
theorem exists_scans
    (hTokens : s.tokens = ts ++ us)
    (hLeft : us ≠ []) :
    ∃ last, Scans s ts last ∧ last.tokens = us := by
  induction ts generalizing s with
  | nil => exact ⟨s, .nil s, hTokens⟩
  | cons t ts ih =>
      by_cases hEnd : s.skipBlanks.rest = []
      · rw [tokens_of_end hEnd] at hTokens
        have hNone := (List.cons.inj hTokens).2
        exact absurd (List.append_eq_nil_iff.mp hNone.symm).2
          hLeft
      · rw [tokens_of_more hEnd] at hTokens
        rcases List.cons.inj hTokens with ⟨rfl, hRest⟩
        rcases ih hRest with ⟨last, hScans, hSame⟩
        exact ⟨last, .cons hEnd hScans, hSame⟩

/- Only blanks are left where the end is next. -/
theorem rest_of_tokens
    {p : Place}
    (hTokens : s.tokens = [endToken p]) :
    s.skipBlanks.rest = [] := by
  by_cases hMore : s.skipBlanks.rest = []
  · exact hMore
  · rw [tokens_of_more hMore] at hTokens
    rcases next_of_more hMore with
      ⟨_, _, -, -, -, -, -, -, hKind⟩
    rw [(List.cons.inj hTokens).1] at hKind
    exact absurd rfl hKind

/- A run of steps passes the characters of its tokens. -/
theorem Scans.exists_text
    (hScans : Scans s ts last) :
    ∃ cs, s.rest = cs ++ last.rest ∧
      last.place = s.place.afterAll cs := by
  induction hScans with
  | nil s => exact ⟨[], rfl, rfl⟩
  | @cons s last ts hMore hRest ih =>
      rcases next_of_more hMore with
        ⟨gap, text, hSplit, -, -, -, -, hPlace, -⟩
      rcases ih with ⟨cs, hCs, hLast⟩
      refine ⟨(gap ++ text).toList ++ cs, ?_, ?_⟩
      · rw [hSplit, hCs, List.append_assoc]
      · rw [hLast, hPlace, Place.afterAll_append]

/- A run stops where its last token does. -/
theorem Scans.stop_eq
    {t : Token}
    (hScans : Scans s ts last)
    (hLast : ts.getLast? = some t) :
    t.span.stop = last.place.offset := by
  induction hScans with
  | nil s => cases hLast
  | @cons s last ts hMore hRest ih =>
      cases ts with
      | nil =>
          cases hRest
          cases hLast
          rfl
      | cons u ts =>
          rw [List.getLast?_cons_cons] at hLast
          exact ih hLast

end Runs

------------------------------------------------------------
-- Blanks In Front
------------------------------------------------------------

/- What a scanner gives does not depend on blanks. -/
theorem tokens_congr
    {s s' : Scanner}
    (hSame : s.skipBlanks = s'.skipBlanks) :
    s.tokens = s'.tokens := by
  have hNext : s.next = s'.next := by
    rw [next, next, hSame]
  by_cases hEnd : s.skipBlanks.rest = []
  · have hEnd' := hEnd
    rw [hSame] at hEnd'
    rw [tokens_of_end hEnd, tokens_of_end hEnd', hSame]
  · have hMore' := hEnd
    rw [hSame] at hMore'
    rw [tokens_of_more hEnd, tokens_of_more hMore', hNext]

/- Blanks and what is not blank are told apart. -/
theorem skipBlanks_append
    {gap rest : List Char}
    (hGap : ∀ c ∈ gap, Text.IsBlank c)
    (p : Place) :
    (⟨gap ++ rest, p⟩ : Scanner).skipBlanks =
      (⟨rest, p.afterAll gap⟩ : Scanner).skipBlanks := by
  have hAll :
      ∀ c ∈ gap, decide (Text.IsBlank c) = true := by
    intro c hMem
    exact decide_eq_true (hGap c hMem)
  rw [skipBlanks_eq, skipBlanks_eq,
    List.dropWhile_append_of_pos hAll,
    List.takeWhile_append_of_pos hAll,
    Place.afterAll_append]

theorem skipBlanks_skipBlanks
    (s : Scanner) :
    s.skipBlanks.skipBlanks = s.skipBlanks := by
  let gap := s.rest.takeWhile fun c => Text.IsBlank c
  let left := s.rest.dropWhile fun c => Text.IsBlank c
  have hGap : ∀ c ∈ gap, Text.IsBlank c :=
    fun c hMem => Lexeme.of_mem_takeWhile hMem
  have hSame :
      (⟨gap ++ left, s.place⟩ : Scanner).skipBlanks =
        (⟨left, s.place.afterAll gap⟩ :
          Scanner).skipBlanks :=
    skipBlanks_append hGap s.place
  rw [List.takeWhile_append_dropWhile,
    ← skipBlanks_eq s] at hSame
  exact hSame.symm

/- A run starts at its first token. -/
theorem Scans.skipBlanks
    {s last : Scanner}
    {t : Token}
    {ts : List Token}
    (hScans : Scans s (t :: ts) last) :
    Scans s.skipBlanks (t :: ts) last ∧
      t.span.start = s.skipBlanks.place.offset ∧
      t.span.line = s.skipBlanks.place.line ∧
      t.span.column = s.skipBlanks.place.column := by
  cases hScans with
  | cons hMore hRest =>
      have hNext : s.skipBlanks.next = s.next := by
        rw [next, next, skipBlanks_skipBlanks]
      refine ⟨?_, rfl, rfl, rfl⟩
      rw [← hNext] at hRest ⊢
      refine .cons ?_ hRest
      rw [skipBlanks_skipBlanks]
      exact hMore

------------------------------------------------------------
-- Steps In Other Places
------------------------------------------------------------

/- A token that is the longest behind blanks is the next. -/
theorem next_of_longest
    {gap text rest : List Char}
    {kind : TokenKind}
    (hGap : ∀ c ∈ gap, Text.IsBlank c)
    (hLongest :
      Lexeme.IsLongest (text ++ rest) ⟨kind, text.length⟩)
    (p : Place) :
    let s : Scanner := ⟨gap ++ (text ++ rest), p⟩
    let q := p.afterAll gap
    s.skipBlanks.rest ≠ [] ∧
      s.next =
        ( ⟨kind, String.ofList text,
            .between q (q.afterAll text)⟩,
          ⟨rest, q.afterAll text⟩ ) := by
  intro s q
  have hText := hLongest.tokenText
  have hStart : s.skipBlanks = ⟨text ++ rest, q⟩ := by
    rw [skipBlanks_append hGap, skipBlanks_eq]
    cases text with
    | nil => exact absurd rfl hText.ne_nil
    | cons c text =>
        have hHead := hText.head_not_isBlank
        simp [hHead, q]
  constructor
  · rw [hStart]
    intro hNil
    exact hText.ne_nil (List.append_eq_nil_iff.mp hNil).1
  · have hStop :
        (⟨text ++ rest, q⟩ : Scanner).skip text.length =
          ⟨rest, q.afterAll text⟩ :=
      skip_of_append rfl
    rw [next]
    simp only [hStart, hLongest.scan_eq, hStop,
      List.take_left]

/- The next token is the longest, unless it is an error. -/
theorem exists_longest
    {s : Scanner}
    (hMore : s.skipBlanks.rest ≠ [])
    (hProper : ∀ cause, s.next.1.kind ≠ .error cause) :
    ∃ gap text rest kind,
      s.rest = gap ++ (text ++ rest) ∧
      (∀ c ∈ gap, Text.IsBlank c) ∧
      Lexeme.IsLongest (text ++ rest)
        ⟨kind, text.length⟩ := by
  let left := s.rest.dropWhile fun c => Text.IsBlank c
  have hLeft : s.skipBlanks.rest = left := by
    rw [skipBlanks_eq s]
  rw [next_kind, hLeft] at hProper
  rw [hLeft] at hMore
  rcases Lexeme.scan_cases hMore with hLongest | hMalformed
  · have hLength := List.length_take_of_le hLongest.length_le
    refine
      ⟨s.rest.takeWhile fun c => Text.IsBlank c,
        left.take (Lexeme.scan left).length,
        left.drop (Lexeme.scan left).length,
        (Lexeme.scan left).kind, ?_,
        fun c hMem => Lexeme.of_mem_takeWhile hMem, ?_⟩
    · rw [List.take_append_drop]
      exact List.takeWhile_append_dropWhile.symm
    · rw [List.take_append_drop, hLength]
      exact hLongest
  · rcases hMalformed.text with ⟨cause, hError, -⟩
    exact absurd hError (hProper cause)

section Carried

variable {r : Relocation}
variable {q : Place}

/-
  A run of steps without errors can be made in another
  place, and in front of another text, if that goes on in a
  way that no token can pass.
-/
theorem Scans.carried
    {s last : Scanner}
    {ts : List Token}
    {rest' : List Char}
    (hScans : Scans s ts last)
    (hNone : NoErrors ts)
    (hBoundary : Lexeme.Boundary last.rest rest')
    (hCarries : r.Carries s.place q) :
    ∃ cs,
      s.rest = cs ++ last.rest ∧
      last.place = s.place.afterAll cs ∧
      Scans ⟨cs ++ rest', q⟩ (ts.map r.token)
        ⟨rest', q.afterAll cs⟩ := by
  induction hScans generalizing q with
  | nil s => exact ⟨[], rfl, rfl, .nil _⟩
  | @cons s last ts hMore hRest ih =>
      rcases exists_longest hMore (hNone _ (.head _)) with
        ⟨gap, text, rest, kind, hSplit, hGap, hLongest⟩
      rcases s with ⟨all, p⟩
      simp only at hSplit hCarries
      subst hSplit
      rcases next_of_longest hGap hLongest p with ⟨-, hNext⟩
      rw [hNext] at ih ⊢
      have hLater := (hCarries.after gap).after text
      have hNone' : NoErrors ts :=
        fun t hMem => hNone t (.tail _ hMem)
      rcases ih hNone' hBoundary hLater with
        ⟨cs, hCs, hPlace, hMoved⟩
      simp only at hCs hPlace
      subst hCs
      rcases next_of_longest hGap
          (hLongest.of_boundary hBoundary) q with
        ⟨hMore', hNext'⟩
      refine ⟨gap ++ (text ++ cs), ?_, ?_, ?_⟩
      · simp only [List.append_assoc]
      · rw [hPlace, Place.afterAll_append,
          Place.afterAll_append]
      · simp only [List.append_assoc, List.map_cons,
          Place.afterAll_append]
        refine .of_next hMore' ?_ hMoved
        rw [hNext', Relocation.token, hCarries gap text]

/-
  In another place a scanner gives the same tokens, the end
  and errors included.
-/
theorem tokens_carried
    (s : Scanner)
    (hCarries : r.Carries s.place q) :
    (⟨s.rest, q⟩ : Scanner).tokens =
      s.tokens.map r.token := by
  revert q
  refine tokens_induction
    (motive := fun s ts =>
      ∀ {q}, r.Carries s.place q →
        (⟨s.rest, q⟩ : Scanner).tokens = ts.map r.token)
    s ?_ ?_
  · intro s hEnd q hCarries
    let gap := s.rest.takeWhile fun c => Text.IsBlank c
    let front := s.rest.take gap.length
    have hEnd' :
        (⟨s.rest, q⟩ : Scanner).skipBlanks.rest = [] :=
      hEnd
    rw [tokens_of_end hEnd']
    exact congrArg
      (fun span => [Token.mk .endOfText "" span])
      (hCarries front []).symm
  · intro s hMore ih q hCarries
    let gap := s.rest.takeWhile fun c => Text.IsBlank c
    let front := s.rest.take gap.length
    let text := s.skipBlanks.rest.take
      (Lexeme.scan s.skipBlanks.rest).length
    have hMore' :
        (⟨s.rest, q⟩ : Scanner).skipBlanks.rest ≠ [] :=
      hMore
    have hToken :
        (⟨s.rest, q⟩ : Scanner).next.1 =
          r.token s.next.1 :=
      congrArg (Token.mk s.next.1.kind s.next.1.text)
        (hCarries front text).symm
    rw [tokens_of_more hMore', hToken, List.map_cons]
    exact congrArg (r.token s.next.1 :: ·)
      (ih ((hCarries.after front).after text))

end Carried

end Scanner

------------------------------------------------------------
-- Parts Of Texts
------------------------------------------------------------

section Slices

variable {source : String}
variable {before run behind : List Token}

/- Tokens in a row are those of the text that they cover. -/
theorem tokenize_slice
    {base : Span}
    {first last : Token}
    (hTokens : tokenize source = before ++ (run ++ behind))
    (hBehind : behind ≠ [])
    (hNone : NoErrors run)
    (hFirst : run.head? = some first)
    (hLast : run.getLast? = some last)
    (hStart : base.start = first.span.start)
    (hLine : base.line = first.span.line)
    (hColumn : base.column = first.span.column)
    (hStop : base.stop = last.span.stop) :
    ∃ text p,
      Text.slice? source base.start base.stop = some text ∧
      tokenize text =
        run.map (Relocation.within base).token ++
          [Scanner.endToken p] := by
  cases run with
  | nil => cases hFirst
  | cons t run =>
      cases hFirst
      rcases Scanner.exists_scans hTokens (by simp) with
        ⟨s, hBefore, hLeft⟩
      rcases Scanner.exists_scans hLeft hBehind with
        ⟨s', hRun, -⟩
      rcases hBefore.exists_text with ⟨cs, hCs, hPlace⟩
      rcases hRun.skipBlanks with
        ⟨hOwn, hOffset, hSameLine, hSameColumn⟩
      -- Where the run starts, behind the blanks before it.
      let gap := s.rest.takeWhile fun c => Text.IsBlank c
      have hFront :
          s.skipBlanks.place =
            Place.start.afterAll (cs ++ gap) := by
        rw [Scanner.skipBlanks_eq, hPlace,
          Place.afterAll_append]
        rfl
      have hCounted : s.skipBlanks.place.IsCounted := by
        rw [hFront]
        exact Place.IsCounted.afterAll
          ⟨Nat.le_refl 1, Nat.le_refl 1⟩ _
      rcases hOwn.carried hNone .cut
          (Relocation.carries_within hCounted
            (hStart.trans hOffset) (hLine.trans hSameLine)
            (hColumn.trans hSameColumn)) with
        ⟨own, hSplit, hStopPlace, hMoved⟩
      have hSource :
          source.toList =
            (cs ++ gap) ++ (own ++ s'.rest) := by
        rw [← hSplit, Scanner.skipBlanks_eq,
          List.append_assoc,
          List.takeWhile_append_dropWhile]
        exact hCs
      have hSlice := Text.slice?_afterAll hSource
      have hLastPlace := hOwn.stop_eq hLast
      let stop := Place.start.afterAll own
      have hEnd :
          (⟨[], stop⟩ : Scanner).tokens =
            [Scanner.endToken stop] :=
        Scanner.tokens_of_end rfl
      have hAll := hMoved.tokens_eq
      rw [List.append_nil, hEnd] at hAll
      refine ⟨String.ofList own, stop, ?_, ?_⟩
      · rw [hStart, hStop, hOffset, hLastPlace, hStopPlace,
          hFront]
        exact hSlice
      · rw [tokenize, Scanner.ofString, String.toList_ofList]
        exact hAll

end Slices

------------------------------------------------------------
-- Texts One Behind The Other
------------------------------------------------------------

/- The number of line feeds in a text. -/
def lineFeeds
    (source : String) : Nat :=
  source.toList.count '\n'

theorem Place.line_afterAll
    (p : Place)
    (cs : List Char) :
    (p.afterAll cs).line = p.line + cs.count '\n' := by
  induction cs generalizing p with
  | nil => rfl
  | cons c cs ih =>
      rw [afterAll_cons, ih]
      by_cases hLine : c = '\n'
      · simp [after, hLine]
        omega
      · simp [after, hLine]

/- The line below a text starts at the first column. -/
theorem Place.start_down
    (source : String) :
    start.afterAll (source.toList ++ ['\n']) =
      start.down (source.utf8ByteSize + 1)
        (lineFeeds source + 1) := by
  have hOffset := offset_afterAll start source.toList
  have hLine := line_afterAll start source.toList
  rw [String.ofList_toList] at hOffset
  have hSize : '\n'.utf8Size = 1 := by decide
  have hBelow :
      ∀ q : Place,
        q.after '\n' = ⟨q.offset + 1, q.line + 1, 1⟩ := by
    intro q
    rw [after, if_pos rfl, hSize]
  rw [afterAll_append, afterAll_cons, afterAll_nil, hBelow,
    hOffset, hLine]
  simp only [down, start, lineFeeds, Place.mk.injEq]
  exact ⟨by omega, by omega, trivial⟩

section Texts

variable {a : String}
variable {tokens : List Token}
variable {p : Place}

/-
  Behind a text without errors and a line feed, a text has
  the tokens that it has alone, as many bytes and lines
  further down.
-/
theorem tokenize_append_lineFeed
    (hTokens : tokenize a = tokens ++ [Scanner.endToken p])
    (hNone : NoErrors tokens)
    (b : String) :
    tokenize (a ++ "\n" ++ b) =
      tokens ++
        (tokenize b).map
          (Relocation.down (a.utf8ByteSize + 1)
            (lineFeeds a + 1)).token := by
  rcases Scanner.exists_scans hTokens (by simp) with
    ⟨s, hScans, hEnd⟩
  have hGap :=
    (Scanner.rest_of_end (Scanner.rest_of_tokens hEnd)).1
  rcases hScans.carried hNone (.lineFeed b.toList)
      (Relocation.carries_identity Place.start) with
    ⟨cs, hSplit, -, hMoved⟩
  have hText : a.toList = cs ++ s.rest := hSplit
  have hAll :
      (a ++ "\n" ++ b).toList =
        cs ++ (s.rest ++ '\n' :: b.toList) := by
    rw [String.toList_append, String.toList_append, hText]
    simp
  -- The blanks behind the last token end with the line feed.
  have hBlank :
      ∀ c ∈ s.rest ++ ['\n'], Text.IsBlank c := by
    intro c hMem
    rcases List.mem_append.mp hMem with hMem | hMem
    · exact hGap c hMem
    · rw [List.mem_singleton.mp hMem]
      decide
  let q := Place.start.down (a.utf8ByteSize + 1)
    (lineFeeds a + 1)
  have hPlace :
      (Place.start.afterAll cs).afterAll
          (s.rest ++ ['\n']) = q := by
    rw [← Place.afterAll_append, ← List.append_assoc,
      ← hText, Place.start_down]
  have hBelow :
      (⟨s.rest ++ '\n' :: b.toList,
        Place.start.afterAll cs⟩ : Scanner).skipBlanks =
        (⟨b.toList, q⟩ : Scanner).skipBlanks := by
    rw [List.append_cons,
      Scanner.skipBlanks_append hBlank, hPlace]
  rw [tokenize, Scanner.ofString, hAll, hMoved.tokens_eq,
    Relocation.map_token_identity]
  refine congrArg (tokens ++ ·) ?_
  refine (Scanner.tokens_congr hBelow).trans ?_
  exact Scanner.tokens_carried (Scanner.ofString b)
    (Relocation.carries_down _ _ Place.start)

end Texts

end FeSyntax
