import FeSyntax.Proofs.Lexing.Relocated
import FeSyntax.Proofs.Parsing.Source

/-
  This file says when characters are scanned as tokens of
  some kinds wherever they stand.  What matters is only what
  follows them: a word must end, while a mark that is not
  the front of another mark ends by itself.

  Key definitions include:
    * `EndsWord`
    * `Scanner.IsScannedAs`

  Key theorems include:
    * `Lexeme.isLongest_word`
    * `Lexeme.isLongest_punct`
    * `Scanner.IsScannedAs.append`
    * `Scanner.IsScannedAs.map_kind_tokenize`
    * `Scanner.IsScannedAs.significantKinds_eq`
-/

namespace FeSyntax

------------------------------------------------------------
-- Longest Words And Marks
------------------------------------------------------------

/- No word goes on at the start of the text. -/
def EndsWord : List Char → Prop
  | [] => True
  | c :: _ => ¬ Lexeme.ContinuesWord c

namespace Lexeme

/- A word is the longest token where it ends. -/
theorem isLongest_word
    {text rest : List Char}
    {kind : TokenKind}
    {word : String}
    (hText : TokenText text kind)
    (hWord : kind.word? = some word)
    (hEnds : EndsWord rest) :
    IsLongest (text ++ rest) ⟨kind, text.length⟩ := by
  cases hText with
  | @word c tail hStart hTail =>
      have hTake :
          (tail ++ rest).takeWhile
              (fun d => ContinuesWord d) =
            tail := by
        rw [List.takeWhile_append_of_pos
          (by simpa using hTail)]
        cases rest with
        | nil => exact List.append_nil tail
        | cons d rest =>
            rw [List.takeWhile_cons_of_neg
              (by simpa [EndsWord] using hEnds),
              List.append_nil]
      have hLongest :
          IsLongest (c :: (tail ++ rest))
            (scan (c :: (tail ++ rest))) :=
        isLongest_scan_letter hStart
      rw [scan_letter hStart, hTake] at hLongest
      exact hLongest
  | _ => cases hWord

/-
  A mark is the longest token in front of any text if no
  longer mark starts like it.
-/
theorem isLongest_punct
    {p : Punct}
    (hAlone :
      ∀ q : Punct,
        q.spelling.toList.head? =
            p.spelling.toList.head? →
          q.spelling.toList.length ≤
            p.spelling.toList.length)
    (rest : List Char) :
    IsLongest (p.spelling.toList ++ rest)
      ⟨.punct p, p.spelling.toList.length⟩ := by
  refine .of_append rest (.punct p)
    fun text kind hPrefix hText => ?_
  cases hSpell : p.spelling.toList with
  | nil => exact absurd hSpell (TokenText.punct p).ne_nil
  | cons c tail =>
      rw [hSpell, List.cons_append] at hPrefix
      rcases List.prefix_cons_iff.mp hPrefix with
        rfl | ⟨body, rfl, -⟩
      · exact Nat.zero_le _
      · rcases head_spelling hSpell with
          ⟨hSlash, hQuote, hDigit, hStart⟩
        rcases hText.of_other hSlash hQuote hDigit hStart
          with ⟨q, hOther, -⟩
        rw [← hOther, ← hSpell]
        refine hAlone q ?_
        rw [hOther, hSpell]
        rfl

end Lexeme

/- The grammar sees all tokens but comments and the end. -/
theorem significantKinds_of_tokens
    {text : String}
    {kinds : List TokenKind}
    (hTokens :
      (tokenize text).map Token.kind =
        kinds ++ [.endOfText])
    (hKinds :
      ∀ kind ∈ kinds,
        kind ≠ .comment ∧ kind ≠ .endOfText) :
    significantKinds text = kinds := by
  have hKept :
      kinds.filter
          (fun k => k ≠ .comment ∧ k ≠ .endOfText) =
        kinds := by
    rw [List.filter_eq_self]
    intro kind hMem
    exact decide_eq_true (hKinds kind hMem)
  have hMap :
      significantKinds text =
        ((tokenize text).map Token.kind).filter
          (fun k => k ≠ .comment ∧ k ≠ .endOfText) := by
    rw [List.filter_map]
    rfl
  rw [hMap, hTokens, List.filter_append, hKept]
  exact List.append_nil kinds

------------------------------------------------------------
-- Characters And Kinds
------------------------------------------------------------

namespace Scanner

/- Two runs of steps in a row. -/
theorem Scans.append
    {s mid last : Scanner}
    {ts us : List Token}
    (hFirst : Scans s ts mid)
    (hSecond : Scans mid us last) :
    Scans s (ts ++ us) last := by
  induction hFirst with
  | nil s => exact hSecond
  | cons hMore hRest ih => exact .cons hMore (ih hSecond)

/- Blanks in front make no difference to a run of steps. -/
theorem Scans.congr
    {s s' last : Scanner}
    {t : Token}
    {ts : List Token}
    (hScans : Scans s (t :: ts) last)
    (hSame : s.skipBlanks = s'.skipBlanks) :
    Scans s' (t :: ts) last := by
  cases hScans with
  | cons hMore hRest =>
      have hNext : s.next = s'.next := by
        rw [next, next, hSame]
      rw [hSame] at hMore
      rw [hNext] at hRest ⊢
      exact .cons hMore hRest

/-
  In front of any text with which they may end, and in any
  place, the characters are scanned as tokens of the kinds.
-/
def IsScannedAs
    (ends : List Char → Prop)
    (cs : List Char)
    (kinds : List TokenKind) : Prop :=
  ∀ rest p, ends rest →
    ∃ ts q,
      Scans ⟨cs ++ rest, p⟩ ts ⟨rest, q⟩ ∧
        ts.map Token.kind = kinds

namespace IsScannedAs

variable {ends ends' : List Char → Prop}
variable {cs ds gap : List Char}
variable {kinds kinds' : List TokenKind}

theorem nil :
    IsScannedAs ends [] [] :=
  fun _ p _ => ⟨[], p, .nil _, rfl⟩

theorem of_longest
    {kind : TokenKind}
    (hLongest :
      ∀ rest, ends rest →
        Lexeme.IsLongest (cs ++ rest) ⟨kind, cs.length⟩) :
    IsScannedAs ends cs [kind] := by
  intro rest p hEnds
  rcases next_of_longest (List.forall_mem_nil Text.IsBlank)
      (hLongest rest hEnds) p with ⟨hMore, hNext⟩
  exact ⟨_, _, .of_next hMore hNext (.nil _), rfl⟩

/- What comes second must end what comes first. -/
theorem append
    (hFirst : IsScannedAs ends cs kinds)
    (hSecond : IsScannedAs ends' ds kinds')
    (hEnds : ∀ rest, ends' rest → ends (ds ++ rest)) :
    IsScannedAs ends' (cs ++ ds) (kinds ++ kinds') := by
  intro rest p hRest
  rcases hFirst (ds ++ rest) p (hEnds rest hRest) with
    ⟨ts, mid, hScans, rfl⟩
  rcases hSecond rest mid hRest with
    ⟨us, q, hScans', rfl⟩
  refine ⟨ts ++ us, q, ?_, List.map_append⟩
  rw [List.append_assoc]
  exact hScans.append hScans'

/- A blank can be put in front of a token. -/
theorem blank
    (hScanned : IsScannedAs ends cs kinds)
    (hSome : kinds ≠ []) :
    IsScannedAs ends (' ' :: cs) kinds := by
  intro rest p hEnds
  rcases hScanned rest (p.after ' ') hEnds with
    ⟨ts, q, hScans, rfl⟩
  refine ⟨ts, q, ?_, rfl⟩
  have hGap : ∀ c ∈ [' '], Text.IsBlank c := by
    simp only [List.mem_singleton, forall_eq]
    decide
  have hSame :
      (⟨' ' :: (cs ++ rest), p⟩ : Scanner).skipBlanks =
        (⟨cs ++ rest, p.after ' '⟩ : Scanner).skipBlanks :=
    skipBlanks_append hGap p
  cases ts with
  | nil => exact absurd rfl hSome
  | cons t ts => exact hScans.congr hSame.symm

/- A whole text has these tokens, and blanks behind them. -/
theorem map_kind_tokenize
    (hScanned : IsScannedAs ends cs kinds)
    (hEnds : ends gap)
    (hGap : ∀ c ∈ gap, Text.IsBlank c) :
    (tokenize (String.ofList (cs ++ gap))).map Token.kind =
      kinds ++ [.endOfText] := by
  rcases hScanned gap .start hEnds with
    ⟨ts, q, hScans, rfl⟩
  have hSkip :
      (⟨gap, q⟩ : Scanner).skipBlanks.rest = [] := by
    have hAll :
        (⟨gap ++ [], q⟩ : Scanner).skipBlanks =
          (⟨[], q.afterAll gap⟩ : Scanner).skipBlanks :=
      skipBlanks_append hGap q
    rw [List.append_nil] at hAll
    rw [hAll]
    rfl
  have hAll := hScans.tokens_eq
  rw [tokens_of_end hSkip] at hAll
  rw [tokenize, ofString, String.toList_ofList, hAll,
    List.map_append]
  rfl

/- A whole text has the kinds that it is scanned as. -/
theorem significantKinds_eq
    {text : String}
    (hScanned : IsScannedAs ends text.toList kinds)
    (hEnds : ends [])
    (hKinds :
      ∀ kind ∈ kinds,
        kind ≠ .comment ∧ kind ≠ .endOfText) :
    significantKinds text = kinds := by
  have hTokens :=
    hScanned.map_kind_tokenize hEnds
      (List.forall_mem_nil Text.IsBlank)
  rw [List.append_nil, String.ofList_toList] at hTokens
  exact significantKinds_of_tokens hTokens hKinds

end IsScannedAs

end Scanner

end FeSyntax
