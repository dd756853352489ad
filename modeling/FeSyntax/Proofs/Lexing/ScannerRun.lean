import FeSyntax.Proofs.Lexing.LongestMatch

/-
  This file proves how a scanner moves along its text: what
  one step does, that the tokens are what steps give up to
  the end of the text, and a principle of induction over the
  steps that a scanner takes.

  Key definitions include:
    * `NoErrors`
    * `Scanner.endToken`

  Key theorems include:
    * `Scanner.next_of_end`
    * `Scanner.next_of_more`
    * `Scanner.tokens_induction`
-/

namespace FeSyntax

------------------------------------------------------------
-- Errors Among Tokens
------------------------------------------------------------

/- None of the tokens is an error. -/
def NoErrors
    (ts : List Token) : Prop :=
  ∀ t ∈ ts, ∀ cause, t.kind ≠ .error cause

instance
    (kind : TokenKind) :
    Decidable (∀ cause, kind ≠ .error cause) :=
  match kind with
  | .error cause => isFalse fun hProper => hProper cause rfl
  | .keyword _ | .primitive _ | .bool _ | .identifier _
  | .number _ _ | .string _ | .punct _ | .comment
  | .endOfText => isTrue fun _ => nofun

instance
    (ts : List Token) :
    Decidable (NoErrors ts) := by
  unfold NoErrors
  infer_instance

theorem NoErrors.nil :
    NoErrors [] := by
  intro t hMem
  cases hMem

theorem NoErrors.cons
    {t : Token}
    {ts : List Token}
    (hProper : ∀ cause, t.kind ≠ .error cause)
    (hRest : NoErrors ts) :
    NoErrors (t :: ts) := by
  intro u hMem
  rcases List.mem_cons.mp hMem with rfl | hLater
  · exact hProper
  · exact hRest u hLater

namespace Scanner

------------------------------------------------------------
-- One Step
------------------------------------------------------------

/- The token for the end of a text, at its place. -/
def endToken
    (p : Place) : Token :=
  ⟨.endOfText, "", .between p p⟩

/- At the end the scanner stays, and says so each time. -/
theorem next_of_end
    {s : Scanner}
    (hEnd : s.skipBlanks.rest = []) :
    s.next =
      (endToken s.skipBlanks.place, s.skipBlanks) := by
  have hScan :
      Lexeme.scan s.skipBlanks.rest = ⟨.endOfText, 0⟩ := by
    rw [hEnd]
    rfl
  have hSame :
      s.skipBlanks.rest = [] ++ s.skipBlanks.rest := rfl
  have hSkip : s.skipBlanks.skip 0 = s.skipBlanks :=
    skip_of_append hSame
  unfold next
  simp only [hScan, hSkip]
  rfl

/- At the end there are only blanks left. -/
theorem rest_of_end
    {s : Scanner}
    (hEnd : s.skipBlanks.rest = []) :
    (∀ c ∈ s.rest, Text.IsBlank c) ∧
      s.skipBlanks.place = s.place.afterAll s.rest := by
  rw [skipBlanks_eq] at hEnd ⊢
  have hAll :=
    List.takeWhile_append_dropWhile
      (p := fun c => decide (Text.IsBlank c)) (l := s.rest)
  simp only at hEnd ⊢
  rw [hEnd, List.append_nil] at hAll
  refine ⟨?_, by rw [hAll]⟩
  intro c hMem
  rw [← hAll] at hMem
  exact Lexeme.of_mem_takeWhile hMem

/-
  Before the end the scanner passes the blanks in front and
  the characters of a token.
-/
theorem next_of_more
    {s : Scanner}
    (hMore : s.skipBlanks.rest ≠ []) :
    ∃ gap text : String,
      s.rest = (gap ++ text).toList ++ s.next.2.rest ∧
      (∀ c ∈ gap.toList, Text.IsBlank c) ∧
      text ≠ "" ∧
      s.next.1.text = text ∧
      s.next.1.span =
        .between (s.place.afterAll gap.toList)
          (s.place.afterAll (gap ++ text).toList) ∧
      s.next.2.place =
        s.place.afterAll (gap ++ text).toList ∧
      s.next.1.kind ≠ .endOfText := by
  let gap := s.rest.takeWhile (fun c => Text.IsBlank c)
  let left := s.rest.dropWhile (fun c => Text.IsBlank c)
  let text := left.take (Lexeme.scan left).length
  let behind := left.drop (Lexeme.scan left).length
  have hStart :
      s.skipBlanks = ⟨left, s.place.afterAll gap⟩ :=
    skipBlanks_eq s
  have hLeft : left ≠ [] := by
    rw [hStart] at hMore
    exact hMore
  have hSome : text ≠ [] := by
    intro hNone
    rcases List.take_eq_nil_iff.mp hNone with hZero | hNil
    · have hPos := Lexeme.length_scan_pos hLeft
      omega
    · exact hLeft hNil
  have hLength :
      (Lexeme.scan left).length = text.length := by
    have hLe := Lexeme.length_scan_le left
    exact (List.length_take_of_le hLe).symm
  have hStop :
      s.skipBlanks.skip (Lexeme.scan left).length =
        ⟨behind, s.place.afterAll (gap ++ text)⟩ := by
    rw [hStart, hLength, Place.afterAll_append]
    exact skip_of_append (List.take_append_drop _ _).symm
  have hNext :
      s.next =
        ( ⟨ (Lexeme.scan left).kind, String.ofList text,
            .between (s.place.afterAll gap)
              (s.place.afterAll (gap ++ text)) ⟩,
          ⟨behind, s.place.afterAll (gap ++ text)⟩ ) := by
    unfold next
    simp only [hStart] at hStop ⊢
    rw [hStop]
  rw [hNext]
  have hGap :
      (String.ofList gap).toList = gap :=
    String.toList_ofList
  have hBoth :
      (String.ofList gap ++ String.ofList text).toList =
        gap ++ text := by
    rw [← String.ofList_append, String.toList_ofList]
  refine
    ⟨String.ofList gap, String.ofList text, ?_, ?_, ?_, rfl,
      ?_, ?_, Lexeme.scan_kind_ne_endOfText hLeft⟩
  · rw [hBoth, List.append_assoc, List.take_append_drop,
      List.takeWhile_append_dropWhile]
  · rw [hGap]
    intro c hMem
    exact Lexeme.of_mem_takeWhile hMem
  · intro hEmpty
    exact hSome (String.ofList_injective hEmpty)
  · rw [hGap, hBoth]
  · rw [hBoth]

------------------------------------------------------------
-- All Steps
------------------------------------------------------------

/- Tokens that were found stay in front. -/
theorem tokensWithin_eq_append
    (found : List Token)
    (s : Scanner)
    (fuel : Nat) :
    tokensWithin found s fuel =
      found.reverse ++ tokensWithin [] s fuel := by
  induction fuel generalizing found s with
  | zero => simp [tokensWithin]
  | succ fuel ih =>
      simp only [tokensWithin]
      split
      · simp
      · rw [ih (s.next.1 :: found), ih [s.next.1]]
        simp

/- Every token but the end takes characters. -/
theorem length_next_lt
    {s : Scanner}
    (hMore : s.skipBlanks.rest ≠ []) :
    s.next.2.rest.length < s.rest.length := by
  rcases next_of_more hMore with
    ⟨gap, text, hRest, _, hSome, _⟩
  have hPos : 0 < text.toList.length := by
    apply List.length_pos_iff.mpr
    intro hNil
    exact hSome (String.toList_eq_nil_iff.mp hNil)
  rw [hRest, String.toList_append]
  simp only [List.length_append]
  omega

/-
  Any number of steps above the number of characters gives
  the same tokens, so the bound on the steps is never met.
-/
theorem tokensWithin_eq
    {s : Scanner}
    {fuel fuel' : Nat}
    (hFuel : s.rest.length < fuel)
    (hFuel' : s.rest.length < fuel') :
    tokensWithin [] s fuel = tokensWithin [] s fuel' := by
  induction fuel generalizing s fuel' with
  | zero => omega
  | succ fuel ih =>
      cases fuel' with
      | zero => omega
      | succ fuel' =>
          simp only [tokensWithin]
          split
          · rfl
          · next hKind =>
              have hMore : s.skipBlanks.rest ≠ [] := by
                intro hEnd
                rw [next_of_end hEnd] at hKind
                exact hKind rfl
              have hLess := length_next_lt hMore
              have hSame :
                  tokensWithin [] s.next.2 fuel =
                    tokensWithin [] s.next.2 fuel' :=
                ih (by omega) (by omega)
              rw [tokensWithin_eq_append [s.next.1],
                tokensWithin_eq_append [s.next.1], hSame]

/- At the end there is one token, which says so. -/
theorem tokens_of_end
    {s : Scanner}
    (hEnd : s.skipBlanks.rest = []) :
    s.tokens = [endToken s.skipBlanks.place] := by
  unfold tokens tokensWithin
  rw [next_of_end hEnd]
  rfl

/- Before the end the tokens start with the next one. -/
theorem tokens_of_more
    {s : Scanner}
    (hMore : s.skipBlanks.rest ≠ []) :
    s.tokens = s.next.1 :: s.next.2.tokens := by
  rcases next_of_more hMore with
    ⟨_, _, _, _, _, _, _, _, hKind⟩
  unfold tokens
  rw [tokensWithin]
  simp only [hKind, if_false]
  rw [tokensWithin_eq_append]
  exact congrArg (s.next.1 :: ·)
    (tokensWithin_eq (length_next_lt hMore)
      (Nat.lt_succ_self _))

/-
  What holds at the end, and is kept by a step before it,
  holds of the tokens of every scanner.
-/
theorem tokens_induction
    {motive : Scanner → List Token → Prop}
    (s : Scanner)
    (stop :
      ∀ s, s.skipBlanks.rest = [] →
        motive s [endToken s.skipBlanks.place])
    (step :
      ∀ s, s.skipBlanks.rest ≠ [] →
        motive s.next.2 s.next.2.tokens →
          motive s (s.next.1 :: s.next.2.tokens)) :
    motive s s.tokens := by
  induction hLength : s.rest.length using Nat.strongRecOn
    generalizing s with
  | ind length ih =>
      by_cases hEnd : s.skipBlanks.rest = []
      · rw [tokens_of_end hEnd]
        exact stop s hEnd
      · rw [tokens_of_more hEnd]
        apply step s hEnd
        have hLess := length_next_lt hEnd
        exact ih _ (by omega) s.next.2 rfl

end Scanner

end FeSyntax
