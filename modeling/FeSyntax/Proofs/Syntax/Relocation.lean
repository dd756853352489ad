import FeSyntax.Token.Basic

/-
  This file defines how spans change when a text is put in
  another place: behind other lines, or at the start of a
  text of its own.  Spans that start and stop at characters
  of the text go to the spans of the same characters.

  Key definitions include:
    * `Relocation`
    * `Relocation.token`
    * `Relocation.down`
    * `Relocation.within`
    * `Relocation.Carries`

  Key theorems include:
    * `Relocation.carries_down`
    * `Relocation.carries_within`
-/

namespace FeSyntax

------------------------------------------------------------
-- Relocations
------------------------------------------------------------

/-
  A change of spans that keeps what it means to go from the
  start of one span through the end of another.
-/
structure Relocation where
  span : Span → Span
  span_through :
    ∀ a b : Span,
      span (a.through b) = (span a).through (span b)

namespace Relocation

/- The token in its new place. -/
def token
    (r : Relocation)
    (t : Token) : Token :=
  { t with span := r.span t.span }

section Tokens

variable (r : Relocation)
variable (t : Token)

/- A token keeps its kind wherever it is put. -/
@[simp] theorem token_kind :
    (r.token t).kind = t.kind :=
  rfl

end Tokens

/- Nothing changes. -/
def identity : Relocation :=
  ⟨id, fun _ _ => rfl⟩

/- The identity leaves tokens where they are. -/
@[simp] theorem map_token_identity
    (ts : List Token) :
    ts.map identity.token = ts := by
  have hSame : identity.token = id := rfl
  rw [hSame, List.map_id]

/- Bytes and lines are put in front of the text. -/
def down
    (bytes lines : Nat) : Relocation where
  span s :=
    ⟨s.start + bytes, s.stop + bytes, s.line + lines,
      s.column⟩
  span_through _ _ := rfl

/-
  What a span covers becomes a text of its own.  Offsets and
  lines are counted from the start of the span, and so are
  the columns of its first line.
-/
def within
    (base : Span) : Relocation where
  span s :=
    ⟨s.start - base.start, s.stop - base.start,
      s.line - (base.line - 1),
      if s.line = base.line then s.column - (base.column - 1)
      else s.column⟩
  span_through _ _ := rfl

/-
  The places of a text that starts at `p` go to those of the
  same text at `q`.
-/
def Carries
    (r : Relocation)
    (p q : Place) : Prop :=
  ∀ front text,
    r.span
        (.between (p.afterAll front)
          ((p.afterAll front).afterAll text)) =
      .between (q.afterAll front)
        ((q.afterAll front).afterAll text)

variable {r : Relocation}
variable {p q : Place}

/- The rest of a text is carried with the text. -/
theorem Carries.after
    (hCarries : r.Carries p q)
    (cs : List Char) :
    r.Carries (p.afterAll cs) (q.afterAll cs) := by
  intro front text
  rw [← Place.afterAll_append p cs front,
    ← Place.afterAll_append q cs front]
  exact hCarries (cs ++ front) text

/- The identity carries every text to its own place. -/
theorem carries_identity
    (p : Place) :
    identity.Carries p p :=
  fun _ _ => rfl

end Relocation

------------------------------------------------------------
-- Texts Behind Other Lines
------------------------------------------------------------

namespace Place

/- The place, with bytes and lines in front. -/
def down
    (bytes lines : Nat)
    (p : Place) : Place :=
  ⟨p.offset + bytes, p.line + lines, p.column⟩

/-
  A character moves a place on in the same way further down.
-/
theorem down_after
    (bytes lines : Nat)
    (p : Place)
    (c : Char) :
    (p.down bytes lines).after c =
      (p.after c).down bytes lines := by
  by_cases hLine : c = '\n' <;>
    simp [after, down, hLine, Nat.add_right_comm]

theorem down_afterAll
    (bytes lines : Nat)
    (p : Place)
    (cs : List Char) :
    (p.down bytes lines).afterAll cs =
      (p.afterAll cs).down bytes lines := by
  induction cs generalizing p with
  | nil => rfl
  | cons c cs ih =>
      rw [afterAll_cons, afterAll_cons, down_after, ih]

end Place

/-
  A text is carried to the place that has the bytes and
  lines in front.
-/
theorem Relocation.carries_down
    (bytes lines : Nat)
    (p : Place) :
    (down bytes lines).Carries p (p.down bytes lines) := by
  intro front text
  rw [Place.down_afterAll, Place.down_afterAll]
  rfl

------------------------------------------------------------
-- Texts Of Their Own
------------------------------------------------------------

namespace Place

/- Lines and columns are counted from one. -/
structure IsCounted
    (p : Place) : Prop where
  line : 1 ≤ p.line
  column : 1 ≤ p.column

/-
  Lines and columns are still counted from one behind any
  text.
-/
theorem IsCounted.afterAll
    {p : Place}
    (hCounted : p.IsCounted)
    (cs : List Char) :
    (p.afterAll cs).IsCounted := by
  induction cs generalizing p with
  | nil => exact hCounted
  | cons c cs ih =>
      refine ih ?_
      rcases hCounted with ⟨hLine, hColumn⟩
      unfold after
      split
      · exact ⟨Nat.le_succ_of_le hLine, Nat.le_refl 1⟩
      · exact ⟨hLine, Nat.le_succ_of_le hColumn⟩

/-
  The place `q` stands behind `p`, where a text of its own
  starts, at the place `own` of that text.
-/
structure IsWithin
    (p q own : Place) : Prop where
  offset : q.offset = p.offset + own.offset
  line : q.line + 1 = p.line + own.line
  firstLine :
    q.line = p.line → q.column + 1 = p.column + own.column
  laterLine : q.line ≠ p.line → q.column = own.column
  behind : p.line ≤ q.line

/-
  Inside and outside the text, a character moves the two
  places on alike.
-/
theorem IsWithin.after
    {p q own : Place}
    (hWithin : p.IsWithin q own)
    (c : Char) :
    p.IsWithin (q.after c) (own.after c) := by
  rcases hWithin with
    ⟨hOffset, hLine, hFirst, hLater, hBehind⟩
  by_cases hEnd : c = '\n'
  · rw [Place.after, Place.after, if_pos hEnd, if_pos hEnd]
    refine ⟨?_, ?_, ?_, fun _ => rfl, ?_⟩ <;>
      simp only <;> omega
  · rw [Place.after, Place.after, if_neg hEnd, if_neg hEnd]
    refine ⟨?_, ?_, ?_, ?_, ?_⟩ <;> simp only <;> omega

/-
  Behind the same text, the two places still tell of one
  another.
-/
theorem isWithin_afterAll
    (p : Place)
    (cs : List Char) :
    p.IsWithin (p.afterAll cs) (start.afterAll cs) := by
  have hStep :
      ∀ {q own : Place}, p.IsWithin q own →
        p.IsWithin (q.afterAll cs) (own.afterAll cs) := by
    intro q own hWithin
    induction cs generalizing q own with
    | nil => exact hWithin
    | cons c cs ih => exact ih (hWithin.after c)
  exact hStep
    ⟨rfl, rfl, fun _ => rfl, fun hNot => absurd rfl hNot,
      Nat.le_refl _⟩

end Place

/- A text that starts where a span does goes to the start. -/
theorem Relocation.carries_within
    {base : Span}
    {p : Place}
    (hCounted : p.IsCounted)
    (hStart : base.start = p.offset)
    (hLine : base.line = p.line)
    (hColumn : base.column = p.column) :
    (within base).Carries p .start := by
  intro front text
  rcases p.isWithin_afterAll front with
    ⟨hOffset, hLines, hFirst, hLater, hBehind⟩
  have hStop := (p.isWithin_afterAll (front ++ text)).offset
  rw [Place.afterAll_append, Place.afterAll_append] at hStop
  rcases hCounted with ⟨hLow, hLeft⟩
  simp only [within, Span.between, hStart, hLine, hColumn,
    Span.mk.injEq]
  refine ⟨by omega, by omega, by omega, ?_⟩
  by_cases hSame : (p.afterAll front).line = p.line
  · rw [if_pos hSame]
    have hColumns := hFirst hSame
    omega
  · rw [if_neg hSame]
    exact hLater hSame

end FeSyntax
