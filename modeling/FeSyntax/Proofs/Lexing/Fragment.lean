import FeSyntax.Proofs.Lexing.Scanned

/-
  This file proves that a text can be scanned piece by
  piece.  A piece without comments and errors that ends
  where a token does is scanned in front of any blank as it
  is scanned alone, and a number is scanned in front of
  whatever no word goes on with.

  Key definitions include:
    * `StartsBlank`
    * `TokenKind.IsOrdinary`

  Key theorems include:
    * `Lexeme.isLongest_number`
    * `Scanner.Scans.before_blank`
    * `Scanner.IsScannedAs.of_tokenize`
    * `Scanner.IsScannedAs.flatMap`
-/

namespace FeSyntax

------------------------------------------------------------
-- Numbers In Front Of Other Characters
------------------------------------------------------------

namespace Lexeme

variable {c : Char}
variable {text rest : List Char}
variable {kind : TokenKind}

/- Hexadecimal digits are letters or digits. -/
theorem continuesWord_of_isHexDigit
    (hDigit : Text.IsHexDigit c) :
    ContinuesWord c := by
  rcases hDigit with
    hDigit | ⟨hLow, hHigh⟩ | ⟨hLow, hHigh⟩
  · exact Or.inr hDigit
  · exact Or.inl
      (Or.inl ⟨hLow, Char.le_trans hHigh (by decide)⟩)
  · exact Or.inl
      (Or.inr
        (Or.inl ⟨hLow, Char.le_trans hHigh (by decide)⟩))

theorem continuesWord_of_mem_suffixText
    {suffix : Option IntSuffix}
    (hMem : c ∈ suffixText suffix) :
    ContinuesWord c := by
  cases suffix with
  | none => cases hMem
  | some suffix =>
      have hAll :
          (suffixText (some suffix)).all
            (fun c => decide (ContinuesWord c)) = true := by
        cases suffix <;> decide
      exact of_decide_eq_true
        (List.all_eq_true.mp hAll c hMem)

/- All characters of a number could stand in a word. -/
theorem TokenText.continuesWord_of_digit
    {d : Char}
    (hText : TokenText (c :: text) kind)
    (hDigit : Text.IsDigit c)
    (hMem : d ∈ c :: text) :
    ContinuesWord d := by
  rcases hText.of_digit hDigit with
    ⟨digits, suffix, hSame, -, hDigits, -⟩ |
    ⟨digits, suffix, hSame, -, hDigits, -⟩
  · rw [hSame] at hMem
    rcases List.mem_append.mp hMem with hMem | hMem
    · exact Or.inr (hDigits d hMem)
    · exact continuesWord_of_mem_suffixText hMem
  · rw [hSame] at hMem
    simp only [List.mem_cons, List.mem_append] at hMem
    rcases hMem with rfl | rfl | hMem | hMem
    · decide
    · decide
    · exact continuesWord_of_isHexDigit (hDigits d hMem)
    · exact continuesWord_of_mem_suffixText hMem

/- A number is the longest token where a word would end. -/
theorem isLongest_number
    (hText : TokenText (c :: text) kind)
    (hDigit : Text.IsDigit c)
    (hEnds : EndsWord rest) :
    IsLongest (c :: text ++ rest)
      ⟨kind, (c :: text).length⟩ := by
  refine .of_append rest hText
    fun p kind' hPrefix hOther => ?_
  cases rest with
  | nil =>
      rw [List.append_nil] at hPrefix
      exact hPrefix.length_le
  | cons d rest =>
      by_contra hLonger
      have hInside : c :: text ++ [d] <+: p := by
        refine List.prefix_of_prefix_length_le
          ⟨rest, by simp⟩ hPrefix ?_
        rw [List.length_append, List.length_singleton]
        exact Nat.lt_of_not_le hLonger
      rcases hInside with ⟨more, rfl⟩
      simp only [List.append_assoc,
        List.cons_append] at hOther
      have hMem : d ∈ c :: (text ++ ([d] ++ more)) := by
        simp
      exact hEnds
        (hOther.continuesWord_of_digit hDigit hMem)

end Lexeme

------------------------------------------------------------
-- Pieces In Front Of Blanks
------------------------------------------------------------

/- A blank stands at the start of the text. -/
def StartsBlank : List Char → Prop
  | [] => False
  | c :: _ => Text.IsBlank c

/- A kind of tokens that are neither skipped nor wrong. -/
def TokenKind.IsOrdinary : TokenKind → Prop
  | comment => False
  | error _ => False
  | endOfText => False
  | _ => True

instance
    (kind : TokenKind) :
    Decidable kind.IsOrdinary := by
  unfold TokenKind.IsOrdinary
  cases kind <;> infer_instance

namespace TokenKind

variable {kind : TokenKind}

theorem IsOrdinary.ne_comment
    (hKind : kind.IsOrdinary) :
    kind ≠ .comment := by
  rintro rfl
  exact hKind

theorem IsOrdinary.ne_endOfText
    (hKind : kind.IsOrdinary) :
    kind ≠ .endOfText := by
  rintro rfl
  exact hKind

theorem IsOrdinary.ne_error
    (hKind : kind.IsOrdinary)
    (cause : LexError) :
    kind ≠ .error cause := by
  rintro rfl
  exact hKind

/- Every word is a token of an ordinary kind. -/
theorem isOrdinary_ofWord
    (word : String) :
    (ofWord word).IsOrdinary := by
  have hWord := word?_ofWord word
  cases hKind : ofWord word with
  | comment =>
      rw [hKind] at hWord
      cases hWord
  | error cause =>
      rw [hKind] at hWord
      cases hWord
  | endOfText =>
      rw [hKind] at hWord
      cases hWord
  | _ => trivial

end TokenKind

namespace Scanner

/-
  A run of steps up to the end of the text can be made in
  any place in front of a blank.
-/
theorem Scans.before_blank
    {s last : Scanner}
    {ts : List Token}
    {rest : List Char}
    (hScans : Scans s ts last)
    (hEnd : last.rest = [])
    (hKinds : ∀ t ∈ ts, t.kind.IsOrdinary)
    (hBlank : StartsBlank rest)
    (q : Place) :
    ∃ us q',
      Scans ⟨s.rest ++ rest, q⟩ us ⟨rest, q'⟩ ∧
        us.map Token.kind = ts.map Token.kind := by
  induction hScans generalizing q with
  | nil s =>
      refine ⟨[], q, ?_, rfl⟩
      rw [hEnd]
      exact .nil _
  | @cons s last ts hMore hRest ih =>
      have hHead : s.next.1.kind.IsOrdinary :=
        hKinds _ (.head _)
      rcases exists_longest hMore hHead.ne_error with
        ⟨gap, text, between, kind, hSplit, hGap, hLongest⟩
      rcases s with ⟨all, p⟩
      simp only at hSplit
      subst hSplit
      rcases next_of_longest hGap hLongest p with ⟨-, hNext⟩
      rw [hNext] at ih hHead ⊢
      cases rest with
      | nil => cases hBlank
      | cons c rest =>
          -- No longer token reaches over the blank.
          have hLonger :
              Lexeme.IsLongest
                (text ++ (between ++ c :: rest))
                ⟨kind, text.length⟩ :=
            .of_blank hLongest.tokenText hBlank
              (Or.inl hHead.ne_comment) hLongest.longest
              rest
          rcases next_of_longest hGap hLonger q with
            ⟨hMore', hNext'⟩
          have hLater : ∀ t ∈ ts, t.kind.IsOrdinary :=
            fun t hMem => hKinds t (.tail _ hMem)
          rcases ih hEnd hLater
              ((q.afterAll gap).afterAll text) with
            ⟨us, q', hScans', hSame⟩
          have hBoth := Scans.of_next hMore' hNext' hScans'
          simp only [List.append_assoc]
          refine ⟨_, q', hBoth, ?_⟩
          rw [List.map_cons, List.map_cons, hSame]

namespace IsScannedAs

variable {ends : List Char → Prop}
variable {cs : List Char}
variable {kinds : List TokenKind}

/-
  A text that does not end in a blank is scanned in front of
  any blank as it is scanned alone.
-/
theorem of_tokenize
    {text : String}
    (hTokens :
      (tokenize text).map Token.kind =
        kinds ++ [.endOfText])
    (hKinds : ∀ kind ∈ kinds, kind.IsOrdinary)
    (hTight :
      text.toList.getLast?.any
        (fun c => decide (Text.IsBlank c)) = false) :
    IsScannedAs StartsBlank text.toList kinds := by
  rcases exists_tokenize_eq text with ⟨ts, p, hAll, -⟩
  have hSame : ts.map Token.kind = kinds := by
    rw [hAll, List.map_append] at hTokens
    exact (List.append_inj_left' hTokens rfl)
  rcases exists_scans hAll (List.cons_ne_nil _ _) with
    ⟨last, hScans, hLast⟩
  rcases rest_of_end (rest_of_tokens hLast) with
    ⟨hBlanks, -⟩
  rcases hScans.exists_text with ⟨front, hSplit, -⟩
  have hEnd : last.rest = [] := by
    by_contra hSome
    have hFinal :
        text.toList.getLast? =
          some (last.rest.getLast hSome) := by
      have hChars : text.toList = front ++ last.rest :=
        hSplit
      rw [hChars, List.getLast?_append_of_ne_nil _ hSome,
        List.getLast?_eq_some_getLast hSome]
    rw [hFinal] at hTight
    exact of_decide_eq_false hTight
      (hBlanks _ (List.getLast_mem hSome))
  intro rest q hBlank
  rcases hScans.before_blank hEnd
      (fun t hMem =>
        hKinds _ (hSame ▸ List.mem_map_of_mem hMem))
      hBlank q with
    ⟨us, q', hScans', hKinds'⟩
  exact ⟨us, q', hScans', hKinds'.trans hSame⟩

/- What may stand behind a piece can be narrowed down. -/
theorem imp
    {ends' : List Char → Prop}
    (hScanned : IsScannedAs ends cs kinds)
    (hEnds : ∀ rest, ends' rest → ends rest) :
    IsScannedAs ends' cs kinds :=
  fun rest p hRest => hScanned rest p (hEnds rest hRest)

/- Pieces that end each other can be put in a row. -/
theorem flatMap
    {α : Type}
    {xs : List α}
    {chars : α → List Char}
    {written : α → List TokenKind}
    (hEach :
      ∀ x ∈ xs, IsScannedAs ends (chars x) (written x))
    (hEnds :
      ∀ x ∈ xs, ∀ rest, ends (chars x ++ rest)) :
    IsScannedAs ends (xs.flatMap chars)
      (xs.flatMap written) := by
  induction xs with
  | nil => exact .nil
  | cons x xs ih =>
      rw [List.flatMap_cons, List.flatMap_cons]
      refine
        (hEach x (.head _)).append
          (ih (fun y hMem => hEach y (.tail _ hMem))
            fun y hMem => hEnds y (.tail _ hMem)) ?_
      intro rest hRest
      cases xs with
      | nil => exact hRest
      | cons y xs =>
          rw [List.flatMap_cons, List.append_assoc]
          exact hEnds y (.tail _ (.head _)) _

end IsScannedAs

end Scanner

------------------------------------------------------------
-- Texts With Ordinary Tokens
------------------------------------------------------------

section Texts

variable {text : String}
variable {kinds : List TokenKind}
variable
  (hTokens :
    (tokenize text).map Token.kind = kinds ++ [.endOfText])
  (hKinds : ∀ kind ∈ kinds, kind.IsOrdinary)

include hTokens hKinds

/- The grammar sees all tokens but the end. -/
theorem significantKinds_of_ordinary :
    significantKinds text = kinds := by
  apply significantKinds_of_tokens hTokens
  intro kind hMem
  have hKind := hKinds kind hMem
  exact ⟨hKind.ne_comment, hKind.ne_endOfText⟩

/- The text has no comments. -/
theorem commentsOf_of_ordinary :
    Cursor.commentsOf (tokenize text) = [] := by
  unfold Cursor.commentsOf
  rw [List.map_eq_nil_iff, List.filter_eq_nil_iff]
  intro t hMem hComment
  have hKind : t.kind ∈ kinds ++ [.endOfText] := by
    rw [← hTokens]
    exact List.mem_map_of_mem hMem
  rw [of_decide_eq_true hComment] at hKind
  rcases List.mem_append.mp hKind with hMem' | hMem'
  · exact (hKinds _ hMem').ne_comment rfl
  · cases List.mem_singleton.mp hMem'

end Texts

end FeSyntax
