import FeSyntax.Proofs.NamedTree.Reader
import Mathlib.Data.List.Chain
import Mathlib.Data.List.Infix

/-
  This file proves how S-expressions use their marks.  The
  parentheses of an S-expression match, and one that has no
  label is enclosed by its first and its last parenthesis.
  No two blanks stand in a row.

  Key definitions include:
    * `Parentheses.depth`
    * `Parentheses.IsBalanced`
    * `IsSpaced`

  Key theorems include:
    * `Parentheses.IsBalanced.append`
    * `Parentheses.IsBalanced.depth_pos_of_enclosed`
    * `NamedTree.isBalanced_chars`
    * `NamedTree.depth_pos_of_prefix`
    * `NamedTree.isSpaced_chars`
-/

namespace FeSyntax

------------------------------------------------------------
-- Parentheses
------------------------------------------------------------

namespace Parentheses

/- The number of parentheses that characters leave open. -/
def depth
    (cs : List Char) : Int :=
  cs.count '(' - cs.count ')'

/-
  Parentheses match if none closes before it opens, and all
  are closed in the end.
-/
structure IsBalanced
    (cs : List Char) : Prop where
  level : ∀ front, front <+: cs → 0 ≤ depth front
  closed : depth cs = 0

variable {cs ds : List Char}

theorem depth_append
    (cs ds : List Char) :
    depth (cs ++ ds) = depth cs + depth ds := by
  simp only [depth, List.count_append]
  omega

/- An opening parenthesis adds one to the depth. -/
theorem depth_cons_open
    (cs : List Char) :
    depth ('(' :: cs) = 1 + depth cs :=
  depth_append ['('] cs

/- A text without parentheses is balanced. -/
theorem isBalanced_of_no_mark
    (hOpen : '(' ∉ cs)
    (hClose : ')' ∉ cs) :
    IsBalanced cs where
  level := by
    intro front hFront
    have hNone : front.count ')' = 0 :=
      List.count_eq_zero.mpr fun hMem =>
        hClose (hFront.subset hMem)
    rw [depth, hNone]
    omega
  closed := by
    rw [depth, List.count_eq_zero.mpr hOpen,
      List.count_eq_zero.mpr hClose]
    rfl

theorem isBalanced_nil :
    IsBalanced [] :=
  isBalanced_of_no_mark (by simp) (by simp)

/- Balanced texts in a row are balanced. -/
theorem IsBalanced.append
    (hFirst : IsBalanced cs)
    (hSecond : IsBalanced ds) :
    IsBalanced (cs ++ ds) where
  level := by
    intro front hFront
    have hStart : cs <+: cs ++ ds := List.prefix_append _ _
    rcases Nat.le_total front.length cs.length with
      hShort | hLong
    · exact hFirst.level front
        (List.prefix_of_prefix_length_le hFront hStart hShort)
    · rcases List.prefix_of_prefix_length_le hStart hFront
          hLong with ⟨more, rfl⟩
      rw [depth_append, hFirst.closed, Int.zero_add]
      exact hSecond.level more
        ((List.prefix_append_right_inj cs).mp hFront)
  closed := by
    rw [depth_append, hFirst.closed, hSecond.closed]
    rfl

/- A part between two parentheses. -/
def enclosed
    (cs : List Char) : List Char :=
  '(' :: (cs ++ [')'])

/- Inside the two, at least one parenthesis is open. -/
theorem IsBalanced.depth_pos_of_enclosed
    {front : List Char}
    (hInner : IsBalanced cs)
    (hFront : front <+: enclosed cs)
    (hSome : front ≠ [])
    (hProper : front ≠ enclosed cs) :
    0 < depth front := by
  rcases List.prefix_cons_iff.mp hFront with
    rfl | ⟨inside, rfl, hInside⟩
  · exact absurd rfl hSome
  rcases List.prefix_concat_iff.mp hInside with
    rfl | hInside
  · exact absurd rfl hProper
  have hLevel := hInner.level inside hInside
  rw [depth_cons_open]
  omega

/- Two parentheses around a balanced text cancel out. -/
theorem depth_enclosed
    (hInner : IsBalanced cs) :
    depth (enclosed cs) = 0 := by
  rw [enclosed, depth_cons_open, depth_append, hInner.closed]
  rfl

/-
  So a text in parentheses is balanced, since nothing inside
  closes the outer one.
-/
theorem IsBalanced.enclosed
    (hInner : IsBalanced cs) :
    IsBalanced (enclosed cs) where
  level := by
    intro front hFront
    by_cases hNone : front = []
    · rw [hNone]
      exact Int.le_refl 0
    by_cases hWhole : front = Parentheses.enclosed cs
    · rw [hWhole]
      exact Int.le_of_eq (depth_enclosed hInner).symm
    · exact Int.le_of_lt
        (hInner.depth_pos_of_enclosed hFront hNone hWhole)
  closed := depth_enclosed hInner

end Parentheses

------------------------------------------------------------
-- Blanks
------------------------------------------------------------

/- No two blanks stand in a row. -/
def IsSpaced
    (cs : List Char) : Prop :=
  cs.IsChain (fun c d => c ≠ ' ' ∨ d ≠ ' ')

namespace IsSpaced

variable {cs ds : List Char}

/- A text that is spaced has no two blanks in a row. -/
theorem no_two_blanks
    (hSpaced : IsSpaced cs) :
    ¬ [' ', ' '] <:+: cs := by
  intro hInfix
  have hPair := List.IsChain.infix hSpaced hInfix
  simp at hPair

/- A character that is no blank can stand before any. -/
theorem cons
    {c : Char}
    (hMark : c ≠ ' ')
    (hSpaced : IsSpaced cs) :
    IsSpaced (c :: cs) :=
  List.isChain_cons.mpr ⟨fun _ _ => .inl hMark, hSpaced⟩

/- A text without blanks can stand before any. -/
theorem append
    (hMarks : ∀ c ∈ cs, c ≠ ' ')
    (hSpaced : IsSpaced ds) :
    IsSpaced (cs ++ ds) := by
  induction cs with
  | nil => exact hSpaced
  | cons c cs ih =>
      exact .cons (hMarks c (.head _))
        (ih fun d hMem => hMarks d (.tail _ hMem))

/- A blank can stand before a character that is none. -/
theorem blank
    (hFront : ds.head? ≠ some ' ')
    (hSpaced : IsSpaced ds) :
    IsSpaced (' ' :: ds) := by
  refine List.isChain_cons.mpr ⟨fun d hMem => ?_, hSpaced⟩
  refine .inr fun hBlank => hFront ?_
  rw [Option.mem_def.mp hMem, hBlank]

end IsSpaced

------------------------------------------------------------
-- S-Expressions
------------------------------------------------------------

namespace NamedTree

open Parentheses

theorem ne_blank_of_isNameChar
    {c : Char}
    (hName : isNameChar c = true) :
    c ≠ ' ' := by
  rintro rfl
  cases hName

theorem isBalanced_of_isNameChar
    {cs : List Char}
    (hNames : ∀ c ∈ cs, isNameChar c = true) :
    IsBalanced cs := by
  refine isBalanced_of_no_mark ?_ ?_
  · intro hMem
    cases hNames _ hMem
  · intro hMem
    cases hNames _ hMem

theorem isBalanced_labelChars
    (field : Option FieldName) :
    IsBalanced (labelChars field) := by
  cases field with
  | none => exact isBalanced_nil
  | some f =>
      exact
        (isBalanced_of_isNameChar
          (isNameChar_of_mem_label f)).append
            (isBalanced_of_no_mark (by decide) (by decide))

/- The characters of a node, from its label on. -/
theorem chars_node
    (field : Option FieldName)
    (kind : NamedKind)
    (children : List NamedTree) :
    (node field kind children).chars =
      labelChars field ++
        enclosed
          (kind.name.toList ++ charsBeforeAll [] children) := by
  rw [chars, charsBefore, charsBeforeAll_eq_append,
    enclosed, List.append_assoc, List.append_assoc]
  rfl

/- Each child has a blank in front of it. -/
theorem charsBeforeAll_cons
    (t : NamedTree)
    (ts : List NamedTree) :
    charsBeforeAll [] (t :: ts) =
      [' '] ++ (t.chars ++ charsBeforeAll [] ts) := by
  rw [charsBeforeAll, charsBefore_eq_append]
  rfl

mutual

/-
  The text of a node is balanced, with its children inside
  its parentheses.
-/
theorem isBalanced_chars
    (t : NamedTree) :
    IsBalanced t.chars := by
  rcases t with ⟨field, kind, children⟩
  have hKind :=
    isBalanced_of_isNameChar (isNameChar_of_mem_name kind)
  rw [chars_node]
  exact (isBalanced_labelChars field).append
    (hKind.append
      (isBalanced_charsBeforeAll children)).enclosed

/- So are the texts of children in a row. -/
theorem isBalanced_charsBeforeAll
    (ts : List NamedTree) :
    IsBalanced (charsBeforeAll [] ts) := by
  cases ts with
  | nil => exact isBalanced_nil
  | cons t ts =>
      have hBlank : IsBalanced [' '] :=
        isBalanced_of_no_mark (by decide) (by decide)
      rw [charsBeforeAll_cons]
      exact hBlank.append
        ((isBalanced_chars t).append
          (isBalanced_charsBeforeAll ts))

end

/-
  A node without a label is open from its first to its last
  character.
-/
theorem depth_pos_of_prefix
    {kind : NamedKind}
    {children : List NamedTree}
    {front : List Char}
    (hFront : front <+: (node none kind children).chars)
    (hSome : front ≠ [])
    (hProper : front ≠ (node none kind children).chars) :
    0 < depth front := by
  have hInner :
      IsBalanced
        (kind.name.toList ++ charsBeforeAll [] children) :=
    (isBalanced_of_isNameChar
      (isNameChar_of_mem_name kind)).append
        (isBalanced_charsBeforeAll children)
  rw [chars_node] at hFront hProper
  exact hInner.depth_pos_of_enclosed hFront hSome hProper

/- A node starts with its label or its parenthesis. -/
theorem head?_charsBefore
    (rest : List Char)
    (t : NamedTree) :
    (charsBefore rest t).head? ≠ some ' ' := by
  rcases t with ⟨field, kind, children⟩
  rw [charsBefore]
  intro hBlank
  rcases field with _ | f
  · cases hBlank
  · cases f <;> cases hBlank

mutual

/-
  What is written for a node has no two blanks in a row with
  what follows.
-/
theorem isSpaced_charsBefore
    {rest : List Char}
    (t : NamedTree)
    (hRest : IsSpaced rest) :
    IsSpaced (charsBefore rest t) := by
  rcases t with ⟨field, kind, children⟩
  have hNode :
      IsSpaced
        ('(' :: (kind.name.toList ++
          charsBeforeAll (')' :: rest) children)) := by
    refine .cons (by decide) (.append ?_ ?_)
    · exact fun c hMem =>
        ne_blank_of_isNameChar
          (isNameChar_of_mem_name kind c hMem)
    · exact isSpaced_charsBeforeAll children
        (.cons (by decide) hRest)
  rw [charsBefore]
  cases field with
  | none => exact hNode
  | some f =>
      rw [labelChars, List.append_assoc, List.append_assoc]
      refine .append ?_ (.cons (by decide) ?_)
      · exact fun c hMem =>
          ne_blank_of_isNameChar
            (isNameChar_of_mem_label f c hMem)
      · exact .blank (by simp) hNode

/- Neither has what is written for children in a row. -/
theorem isSpaced_charsBeforeAll
    {rest : List Char}
    (ts : List NamedTree)
    (hRest : IsSpaced rest) :
    IsSpaced (charsBeforeAll rest ts) := by
  cases ts with
  | nil => exact hRest
  | cons t ts =>
      rw [charsBeforeAll]
      exact .blank (head?_charsBefore _ t)
        (isSpaced_charsBefore t
          (isSpaced_charsBeforeAll ts hRest))

end

/- The same holds for the text of a node alone. -/
theorem isSpaced_chars
    (t : NamedTree) :
    IsSpaced t.chars :=
  isSpaced_charsBefore t .nil

end NamedTree

end FeSyntax
