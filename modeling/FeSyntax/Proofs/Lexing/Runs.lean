import FeSyntax.Proofs.Lexing.TokenText

/-
  This file collects what the scanners of single tokens are
  built on: leading runs of a class of characters, the first
  closing mark of a comment, and digits with a suffix.

  Key theorems include:
    * `Lexeme.length_le_takeWhile`
    * `Lexeme.closingMarkEnd?_eq_some`
    * `Lexeme.length_le_of_first_close`
    * `Lexeme.length_le_of_digits`
    * `Lexeme.digits_unique`
-/

namespace FeSyntax

namespace Lexeme

------------------------------------------------------------
-- Runs Of Characters
------------------------------------------------------------

/-
  A prefix whose characters are all in a class is not longer
  than the leading run of that class.
-/
theorem length_le_takeWhile
    {p : Char → Bool}
    {body cs : List Char}
    (hPrefix : body <+: cs)
    (hBody : ∀ c ∈ body, p c = true) :
    body.length ≤ (cs.takeWhile p).length := by
  rcases hPrefix with ⟨tail, rfl⟩
  rw [List.takeWhile_append_of_pos hBody,
    List.length_append]
  omega

/- Every character of a leading run is in its class. -/
theorem of_mem_takeWhile
    {P : Char → Prop}
    [DecidablePred P]
    {c : Char}
    {cs : List Char}
    (hMem : c ∈ cs.takeWhile (fun d => P d)) :
    P c := by
  simpa using List.all_eq_true.mp List.all_takeWhile c hMem

------------------------------------------------------------
-- Closing Marks
------------------------------------------------------------

/- The scan for a closing mark ends at the first one. -/
theorem closingMarkEnd?_eq_some
    {cs : List Char}
    {n stop : Nat}
    (hStop : closingMarkEnd? n cs = some stop) :
    ∃ body rest,
      cs = body ++ '*' :: '/' :: rest ∧
      ¬ ['*', '/'] <:+: body ++ ['*'] ∧
      stop = n + body.length + 2 := by
  induction cs generalizing n with
  | nil => simp [closingMarkEnd?] at hStop
  | cons c cs ih =>
      by_cases hMark : ['*', '/'] <+: c :: cs
      · rcases hMark with ⟨rest, hRest⟩
        refine ⟨[], rest, hRest.symm, by decide, ?_⟩
        rw [← hRest] at hStop
        simpa [closingMarkEnd?] using hStop.symm
      · have hNext :
            closingMarkEnd? (n + 1) cs = some stop := by
          rw [closingMarkEnd?] at hStop
          · exact hStop
          · rintro rest rfl rfl
            exact hMark (by simp)
        rcases ih hNext with ⟨body, rest, rfl, hFirst, hLen⟩
        refine ⟨c :: body, rest, rfl, ?_, ?_⟩
        · intro hInfix
          rcases List.infix_cons_iff.mp hInfix with
            hHead | hTail
          · rcases hHead with ⟨tail, hTail⟩
            cases body with
            | nil => simp at hTail
            | cons d body =>
                apply hMark
                simp only [List.cons_append,
                  List.nil_append, List.cons.injEq] at hTail
                rcases hTail with ⟨rfl, rfl, _⟩
                simp
          · exact hFirst hTail
        · simp only [List.length_cons]
          omega

/- Without a closing mark there is nowhere to end. -/
theorem not_infix_of_closingMarkEnd?_eq_none
    {cs : List Char}
    {n : Nat}
    (hNone : closingMarkEnd? n cs = none) :
    ¬ ['*', '/'] <:+: cs := by
  induction cs generalizing n with
  | nil => simp
  | cons c cs ih =>
      intro hInfix
      by_cases hMark : ['*', '/'] <+: c :: cs
      · rcases hMark with ⟨rest, hRest⟩
        rw [← hRest] at hNone
        simp [closingMarkEnd?] at hNone
      · have hNext : closingMarkEnd? (n + 1) cs = none := by
          rw [closingMarkEnd?] at hNone
          · exact hNone
          · rintro rest rfl rfl
            exact hMark (by simp)
        rcases List.infix_cons_iff.mp hInfix with
          hHead | hTail
        · exact hMark hHead
        · exact ih hNext hTail

/-
  Of two bodies in front of the same text, one that ends at
  a closing mark is not longer than one that ends at the
  first closing mark.
-/
theorem length_le_of_first_close
    {body other cs : List Char}
    (hBody : body ++ ['*', '/'] <+: cs)
    (hOther : other ++ ['*', '/'] <+: cs)
    (hFirst : ¬ ['*', '/'] <:+: other ++ ['*']) :
    other.length ≤ body.length := by
  apply Nat.le_of_not_lt
  intro hLonger
  apply hFirst
  have hShort : body ++ ['*', '/'] <+: other ++ ['*'] := by
    have hStar : other ++ ['*'] <+: cs := by
      refine List.IsPrefix.trans ?_ hOther
      exact ⟨['/'], by simp⟩
    apply List.prefix_of_prefix_length_le hBody hStar
    simp only [List.length_append, List.length_cons,
      List.length_nil]
    omega
  exact List.IsInfix.trans
    (List.suffix_append body ['*', '/']).isInfix
    hShort.isInfix

------------------------------------------------------------
-- Suffixes And Digits
------------------------------------------------------------

/- A suffix starts with a letter that is no digit. -/
theorem suffixText_eq
    (suffix : Option IntSuffix) :
    suffixText suffix = [] ∨
      ∃ rest, suffixText suffix = 'u' :: rest := by
  cases suffix with
  | none => exact Or.inl rfl
  | some s =>
      right
      cases s with
      | u8 => exact ⟨['8'], by decide⟩
      | u64 => exact ⟨['6', '4'], by decide⟩
      | u128 => exact ⟨['1', '2', '8'], by decide⟩

/- A suffix in front of a text is the one that is found. -/
theorem leadingSuffix?_of_prefix
    {suffix : IntSuffix}
    {cs : List Char}
    (hPrefix : suffixText (some suffix) <+: cs) :
    leadingSuffix? cs = some suffix := by
  rcases hPrefix with ⟨rest, rfl⟩
  cases suffix <;> rfl

/- The suffix that is found stands in front of the text. -/
theorem suffixText_leadingSuffix?
    (cs : List Char) :
    suffixText (leadingSuffix? cs) <+: cs := by
  cases hFound : leadingSuffix? cs with
  | none => simp [suffixText]
  | some suffix =>
      have hPrefix := List.find?_some hFound
      simpa [suffixText] using hPrefix

/- The suffix of a lexeme is counted by its text. -/
theorem length_suffixText
    (suffix : Option IntSuffix) :
    (suffix.map (fun s => s.spelling.length)).getD 0 =
      (suffixText suffix).length := by
  cases suffix with
  | none => rfl
  | some s =>
      simp only [suffixText, Option.map_some,
        Option.getD_some]
      exact String.length_toList.symm

/- A suffix that is there has characters. -/
theorem suffixText_some_ne_nil
    (suffix : IntSuffix) :
    suffixText (some suffix) ≠ [] := by
  cases suffix <;> decide

/- A suffix is found again in its own text. -/
theorem leadingSuffix?_suffixText
    (suffix : Option IntSuffix) :
    leadingSuffix? (suffixText suffix) = suffix := by
  cases suffix with
  | none => rfl
  | some s =>
      exact leadingSuffix?_of_prefix (List.prefix_refl _)

/-
  Digits with an optional suffix reach no farther than all
  leading digits with the suffix behind them.  The class of
  digits may be any that leaves out the start of a suffix.
-/
theorem length_le_of_digits
    {p : Char → Bool}
    {digits cs : List Char}
    {suffix : Option IntSuffix}
    (hLetter : p 'u' = false)
    (hDigits : ∀ d ∈ digits, p d = true)
    (hPrefix : digits ++ suffixText suffix <+: cs) :
    (digits ++ suffixText suffix).length ≤
      (cs.takeWhile p).length +
        (suffixText
          (leadingSuffix? (cs.dropWhile p))).length := by
  rcases hPrefix with ⟨rest, rfl⟩
  rw [List.append_assoc,
    List.takeWhile_append_of_pos hDigits,
    List.dropWhile_append_of_pos hDigits]
  simp only [List.length_append]
  cases suffix with
  | none =>
      simp only [suffixText, Option.map_none,
        Option.getD_none, List.length_nil]
      omega
  | some s =>
      have hStop :
          (suffixText (some s) ++ rest).dropWhile p =
            suffixText (some s) ++ rest := by
        rcases suffixText_eq (some s) with
          hNone | ⟨tail, hSome⟩
        · exact absurd hNone (suffixText_some_ne_nil s)
        · rw [hSome]
          simp [hLetter]
      have hFound :
          leadingSuffix? (suffixText (some s) ++ rest) =
            some s :=
        leadingSuffix?_of_prefix (List.prefix_append _ _)
      rw [hStop, hFound]
      omega

/- The two parts of a number are settled by its text. -/
theorem digits_unique
    {p : Char → Bool}
    {digits digits' : List Char}
    {suffix suffix' : Option IntSuffix}
    (hLetter : p 'u' = false)
    (hDigits : ∀ d ∈ digits, p d = true)
    (hDigits' : ∀ d ∈ digits', p d = true)
    (hSame :
      digits ++ suffixText suffix =
        digits' ++ suffixText suffix') :
    digits = digits' ∧ suffix = suffix' := by
  have hRun :
      ∀ s, (suffixText s).takeWhile p = [] := by
    intro s
    rcases suffixText_eq s with hNone | ⟨tail, hSome⟩
    · simp [hNone]
    · simp [hSome, hLetter]
  have hTake := congrArg (List.takeWhile p) hSame
  rw [List.takeWhile_append_of_pos hDigits,
    List.takeWhile_append_of_pos hDigits',
    hRun, hRun, List.append_nil, List.append_nil] at hTake
  subst hTake
  have hText := List.append_cancel_left hSame
  have hSuffix := congrArg leadingSuffix? hText
  rw [leadingSuffix?_suffixText,
    leadingSuffix?_suffixText] at hSuffix
  exact ⟨rfl, hSuffix⟩

end Lexeme

end FeSyntax
