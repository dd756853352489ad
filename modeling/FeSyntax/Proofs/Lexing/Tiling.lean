import FeSyntax.Proofs.Lexing.ScannerRun
import FeSyntax.Proofs.Lexing.Slice

/-
  This file proves that scanning loses nothing: the tokens
  of a source stand in it one behind the other, each covers
  its own text, and only blanks stand between them.

  Key definitions include:
    * `Token.Covers`
    * `gapRanges`
    * `Tiling`

  Key theorems include:
    * `Tiling.cons`
    * `Scanner.exists_tiling`
    * `tokenize_tiles`
-/

namespace FeSyntax

------------------------------------------------------------
-- Tilings
------------------------------------------------------------

/-
  A token covers its text when the text stands in the source
  between the two offsets of its span.
-/
def Token.Covers
    (source : String)
    (t : Token) : Prop :=
  ∃ before behind : String,
    source = before ++ t.text ++ behind ∧
    t.span.start = before.utf8ByteSize ∧
    t.span.stop = (before ++ t.text).utf8ByteSize

/-
  The byte ranges between tokens: from an offset to the
  first of them, and from each to the next.
-/
def gapRanges
    (start : Nat) : List Token → List (Nat × Nat)
  | [] => []
  | t :: tokens =>
      (start, t.span.start) :: gapRanges t.span.stop tokens

/-
  Tokens tile what stands in a source behind `before`, with
  blank texts between them as gaps.
-/
structure Tiling
    (source before : String)
    (gaps : List String)
    (tokens : List Token) : Prop where
  covers : ∀ t ∈ tokens, t.Covers source
  behind :
    ∀ t ∈ tokens, before.utf8ByteSize ≤ t.span.start
  ordered :
    tokens.Pairwise (fun t u => t.span.stop ≤ u.span.start)
  gapTexts :
    (gapRanges before.utf8ByteSize tokens).map
        (fun r => Text.slice? source r.1 r.2) =
      gaps.map some
  blank : ∀ g ∈ gaps, ∀ c ∈ g.toList, Text.IsBlank c
  rebuilt :
    source =
      before ++
        String.join
          (List.zipWith (fun g t => g ++ t.text) gaps
            tokens)

namespace Tiling

/- The slice that a token covers is its text. -/
theorem slice?_of_covers
    {source : String}
    {t : Token}
    (hCovers : t.Covers source) :
    Text.slice? source t.span.start t.span.stop =
      some t.text := by
  rcases hCovers with ⟨before, behind, rfl, hStart, hStop⟩
  rw [hStart, hStop]
  exact Text.slice?_append before t.text behind

/- No tokens tile what stands behind the whole source. -/
theorem nil
    (source : String) :
    Tiling source source [] [] where
  covers := by simp
  behind := by simp
  ordered := List.Pairwise.nil
  gapTexts := rfl
  blank := by simp
  rebuilt := by simp

/- A gap and a token stand in front of a tiling. -/
theorem cons
    {source before gap : String}
    {gaps : List String}
    {t : Token}
    {tokens : List Token}
    (hBlank : ∀ c ∈ gap.toList, Text.IsBlank c)
    (hStart : t.span.start = (before ++ gap).utf8ByteSize)
    (hStop :
      t.span.stop = (before ++ gap ++ t.text).utf8ByteSize)
    (hTiling :
      Tiling source (before ++ gap ++ t.text) gaps tokens) :
    Tiling source before (gap :: gaps) (t :: tokens) where
  covers := by
    intro u hMem
    rcases List.mem_cons.mp hMem with rfl | hMem
    · exact ⟨_, _, hTiling.rebuilt, hStart, hStop⟩
    · exact hTiling.covers u hMem
  behind := by
    intro u hMem
    rcases List.mem_cons.mp hMem with rfl | hMem
    · rw [hStart, String.utf8ByteSize_append]
      omega
    · have hBehind := hTiling.behind u hMem
      simp only [String.utf8ByteSize_append] at hBehind
      omega
  ordered := by
    rw [List.pairwise_cons]
    refine ⟨?_, hTiling.ordered⟩
    intro u hMem
    rw [hStop]
    exact hTiling.behind u hMem
  gapTexts := by
    have hSlice :
        Text.slice? source before.utf8ByteSize
            t.span.start =
          some gap := by
      have hSplit := hTiling.rebuilt
      rw [String.append_assoc] at hSplit
      rw [hStart, hSplit]
      exact Text.slice?_append before gap _
    rw [gapRanges, List.map_cons, List.map_cons, hSlice,
      hStop, hTiling.gapTexts]
  blank := by
    intro g hMem
    rcases List.mem_cons.mp hMem with rfl | hMem
    · exact hBlank
    · exact hTiling.blank g hMem
  rebuilt := by
    have hSplit := hTiling.rebuilt
    rw [List.zipWith_cons_cons, String.join_cons]
    simpa only [String.append_assoc] using hSplit

end Tiling

------------------------------------------------------------
-- Tokens Tile Their Source
------------------------------------------------------------

namespace Scanner

/- The offset behind texts is the number of their bytes. -/
theorem offset_afterAll_toList
    {p : Place}
    {before : String}
    (hPlace : p.offset = before.utf8ByteSize)
    (text : String) :
    (p.afterAll text.toList).offset =
      (before ++ text).utf8ByteSize := by
  rw [Place.offset_afterAll, hPlace, String.ofList_toList,
    String.utf8ByteSize_append]

/- The tokens of a scanner tile what is left to scan. -/
theorem exists_tiling
    (s : Scanner)
    {source before : String}
    (hPlace : s.place.offset = before.utf8ByteSize)
    (hSource : source = before ++ String.ofList s.rest) :
    ∃ gaps, Tiling source before gaps s.tokens := by
  revert before
  refine tokens_induction
    (motive := fun s tokens =>
      ∀ {before : String},
        s.place.offset = before.utf8ByteSize →
        source = before ++ String.ofList s.rest →
        ∃ gaps, Tiling source before gaps tokens) s ?_ ?_
  · intro s hEnd before hPlace hSource
    rcases rest_of_end hEnd with ⟨hBlank, hStop⟩
    have hOffset :
        s.skipBlanks.place.offset =
          source.utf8ByteSize := by
      rw [hStop, Place.offset_afterAll, hPlace, hSource,
        String.utf8ByteSize_append]
    refine ⟨[String.ofList s.rest], Tiling.cons ?_ ?_ ?_ ?_⟩
    · rw [String.toList_ofList]
      exact hBlank
    · rw [← hSource]
      exact hOffset
    · rw [← hSource, endToken, String.append_empty]
      exact hOffset
    · rw [← hSource, endToken, String.append_empty]
      exact Tiling.nil source
  · intro s hMore ih before hPlace hSource
    rcases next_of_more hMore with
      ⟨gap, text, hRest, hBlank, _, hText, hSpan, hNext, _⟩
    have hGap := offset_afterAll_toList hPlace gap
    have hBoth :=
      offset_afterAll_toList hPlace (gap ++ text)
    rw [← String.append_assoc] at hBoth
    have hBehind :
        source =
          before ++ gap ++ text ++
            String.ofList s.next.2.rest := by
      rw [hSource, hRest, String.ofList_append,
        String.ofList_toList]
      simp only [String.append_assoc]
    rcases ih (by rw [hNext]; exact hBoth) hBehind with
      ⟨gaps, hTiling⟩
    refine ⟨gap :: gaps, Tiling.cons hBlank ?_ ?_ ?_⟩
    · rw [hSpan]
      exact hGap
    · rw [hSpan, hText]
      exact hBoth
    · rw [hText]
      exact hTiling

/-
  Past the end a scanner repeats the token that says so, as
  often as it is asked.
-/
theorem nextTokens_of_end
    {s : Scanner}
    (hEnd : s.skipBlanks.rest = [])
    (n : Nat) :
    s.nextTokens n =
      List.replicate n (endToken s.skipBlanks.place) := by
  induction n generalizing s with
  | zero => rfl
  | succ n ih =>
      have hStay :
          s.skipBlanks.skipBlanks = s.skipBlanks := by
        rw [skipBlanks_eq s.skipBlanks, hEnd]
        simp only [List.dropWhile_nil, List.takeWhile_nil,
          Place.afterAll_nil]
        rw [← hEnd]
      rw [nextTokens, next_of_end hEnd, List.replicate_succ]
      simp only
      rw [ih (by rw [hStay]; exact hEnd), hStay]

/-
  The tokens of a scanner are those that it gives one after
  the other: the last is the first that says the end, all
  others have characters, and asking on repeats the last.
-/
theorem exists_endToken
    (s : Scanner) :
    ∃ tokens p,
      s.tokens = tokens ++ [endToken p] ∧
      p.offset =
        s.place.offset +
          (String.ofList s.rest).utf8ByteSize ∧
      (∀ t ∈ tokens,
        t.kind ≠ .endOfText ∧ t.text ≠ "" ∧
          t.span.start < t.span.stop) ∧
      ∀ n,
        s.nextTokens (s.tokens.length + n) =
          s.tokens ++ List.replicate n (endToken p) := by
  refine tokens_induction
    (motive := fun s all =>
      ∃ tokens p,
        all = tokens ++ [endToken p] ∧
        p.offset =
          s.place.offset +
            (String.ofList s.rest).utf8ByteSize ∧
        (∀ t ∈ tokens,
          t.kind ≠ .endOfText ∧ t.text ≠ "" ∧
            t.span.start < t.span.stop) ∧
        ∀ n,
          s.nextTokens (all.length + n) =
            all ++ List.replicate n (endToken p)) s ?_ ?_
  · intro s hEnd
    refine ⟨[], s.skipBlanks.place, rfl, ?_, by simp, ?_⟩
    · rw [(rest_of_end hEnd).2, Place.offset_afterAll]
    · intro n
      rw [nextTokens_of_end hEnd, List.length_singleton,
        Nat.add_comm, List.replicate_succ]
      rfl
  · intro s hMore ih
    rcases next_of_more hMore with
      ⟨gap, text, hRest, _, hSome, hText, hSpan, hNext,
       hKind⟩
    rcases ih with ⟨tokens, p, hAll, hStop, hTokens, hOn⟩
    refine ⟨s.next.1 :: tokens, p, ?_, ?_, ?_, ?_⟩
    · rw [hAll, List.cons_append]
    · simp only [hStop, hNext, Place.offset_afterAll, hRest,
        String.ofList_append, String.ofList_toList,
        String.utf8ByteSize_append, Nat.add_assoc]
    · intro t hMem
      rcases List.mem_cons.mp hMem with rfl | hMem
      · refine ⟨hKind, by rw [hText]; exact hSome, ?_⟩
        have hPos : 0 < text.utf8ByteSize := by
          apply Nat.pos_of_ne_zero
          intro hZero
          exact hSome
            (String.utf8ByteSize_eq_zero_iff.mp hZero)
        rw [hSpan]
        simp only [Span.between, Place.offset_afterAll,
          String.ofList_toList, String.utf8ByteSize_append]
        omega
      · exact hTokens t hMem
    · intro n
      rw [List.length_cons, Nat.add_right_comm, nextTokens]
      simp only
      rw [hOn n, List.cons_append]

end Scanner

/-
  Scanning loses nothing.  The tokens of a source tile it:
  each covers its own text, they stand in order, and between
  them are only blanks, so gaps and texts in turn are the
  source again.  The last token says the end of the text, is
  empty and stands there; all others have characters.  The
  tokens are what a scanner gives step by step, and asked
  further it repeats the last one.
-/
theorem tokenize_tiles
    (source : String) :
    (∃ gaps, Tiling source "" gaps (tokenize source)) ∧
    (∀ t ∈ tokenize source,
      Text.slice? source t.span.start t.span.stop =
        some t.text) ∧
    ∃ tokens last,
      tokenize source = tokens ++ [last] ∧
      last.kind = .endOfText ∧
      last.text = "" ∧
      last.span.start = source.utf8ByteSize ∧
      last.span.stop = source.utf8ByteSize ∧
      (∀ t ∈ tokens,
        t.kind ≠ .endOfText ∧ t.text ≠ "" ∧
          t.span.start < t.span.stop) ∧
      ∀ n,
        (Scanner.ofString source).nextTokens
            ((tokenize source).length + n) =
          tokenize source ++ List.replicate n last := by
  have hPlace :
      (Scanner.ofString source).place.offset =
        "".utf8ByteSize := rfl
  have hSource :
      source =
        "" ++
          String.ofList (Scanner.ofString source).rest := by
    rw [String.empty_append]
    exact String.ofList_toList.symm
  have hTiles :=
    (Scanner.ofString source).exists_tiling hPlace hSource
  refine ⟨hTiles, ?_, ?_⟩
  · rcases hTiles with ⟨gaps, hTiling⟩
    intro t hMem
    exact Tiling.slice?_of_covers (hTiling.covers t hMem)
  · rcases (Scanner.ofString source).exists_endToken with
      ⟨tokens, p, hAll, hStop, hTokens, hOn⟩
    have hEnd : p.offset = source.utf8ByteSize := by
      rw [hStop, hPlace]
      simp [Scanner.ofString]
    exact
      ⟨tokens, Scanner.endToken p, hAll, rfl, rfl, hEnd,
        hEnd, hTokens, hOn⟩

end FeSyntax
