import FeSyntax.Proofs.Syntax.Height

/-
  This file defines the trees that fit into a number of
  nested levels: those that have no more levels, and in
  which the keyword wins.  These are the trees that a parser
  with that many levels can give.

  Key definitions include:
    * `Ty.Fits`
    * `Pattern.Fits`
    * `Expression.Fits`
    * `Block.Fits`
    * `Function.Fits`
    * `Definition.Fits`

  Each tree fits if its parts fit into the levels that are
  left, and there is one lemma for each form of a tree.
-/

namespace FeSyntax

------------------------------------------------------------
-- Types
------------------------------------------------------------

namespace Ty

/- A type expression fits into a number of levels. -/
def Fits
    (n : Nat)
    (t : Ty) : Prop :=
  t.KeywordWins ∧ t.height ≤ n

theorem not_fits_zero
    (t : Ty) :
    ¬ t.Fits 0 := by
  intro hFits
  have hHeight := hFits.2
  cases t with
  | path p => simp [height] at hHeight
  | reference isMut inner span => simp [height] at hHeight
  | tuple elements span => simp [height] at hHeight
  | primitive kind span => simp [height] at hHeight

/-
  A path fits as soon as there is a level, if it starts with
  no primitive type.
-/
theorem fits_path
    {n : Nat}
    {p : Path} :
    (path p).Fits (n + 1) ↔ p.IsTypePath := by
  constructor
  · intro hFits
    rcases hFits with ⟨hKeyword, -⟩
    cases hKeyword with
    | path hPath => exact hPath
  · intro hPath
    exact ⟨.path hPath, by simp [height]⟩

/-
  A reference takes a level; without `mut`, the type in it
  may not start like one.
-/
theorem fits_reference
    {n : Nat}
    {isMut : Bool}
    {inner : Ty}
    {span : Span} :
    (reference isMut inner span).Fits (n + 1) ↔
      (isMut = false →
        ¬ inner.BeginsWith Keyword.mutKw.spelling) ∧
      inner.Fits n := by
  constructor
  · intro hFits
    rcases hFits with ⟨hKeyword, hHeight⟩
    simp only [height, Nat.add_le_add_iff_right] at hHeight
    cases hKeyword with
    | reference hMut hInner =>
        exact ⟨hMut, hInner, hHeight⟩
  · intro hFits
    rcases hFits with ⟨hMut, hInner, hHeight⟩
    exact ⟨.reference hMut hInner, Nat.succ_le_succ hHeight⟩

/-
  A tuple takes a level, and its elements share the others.
-/
theorem fits_tuple
    {n : Nat}
    {elements : List Ty}
    {span : Span} :
    (tuple elements span).Fits (n + 1) ↔
      ∀ t ∈ elements, t.Fits n := by
  have hHeight :
      (tuple elements span).height ≤ n + 1 ↔
        ∀ t ∈ elements, t.height ≤ n := by
    simp [height, highest_map_le_iff]
  constructor
  · intro hFits
    rcases hFits with ⟨hKeyword, hLevels⟩
    cases hKeyword with
    | tuple hElements =>
        intro t hMem
        exact ⟨hElements t hMem, hHeight.mp hLevels t hMem⟩
  · intro hFits
    exact
      ⟨.tuple fun t hMem => (hFits t hMem).1,
        hHeight.mpr fun t hMem => (hFits t hMem).2⟩

/- A primitive type fits as soon as there is a level. -/
theorem fits_primitive
    {n : Nat}
    {kind : Primitive}
    {span : Span} :
    (primitive kind span).Fits (n + 1) :=
  ⟨.primitive, by simp [height]⟩

end Ty

------------------------------------------------------------
-- Patterns
------------------------------------------------------------

namespace Pattern

/- A pattern fits into a number of levels. -/
def Fits
    (n : Nat)
    (p : Pattern) : Prop :=
  p.KeywordWins ∧ p.height ≤ n

theorem not_fits_zero
    (p : Pattern) :
    ¬ p.Fits 0 := by
  intro hFits
  have hHeight := hFits.2
  cases p with
  | identifier name => simp [height] at hHeight
  | literal l => simp [height] at hHeight
  | wildcard span => simp [height] at hHeight
  | tupleStruct path elements span =>
      simp [height] at hHeight

/-
  A name fits if it is neither a truth value nor the
  wildcard.
-/
theorem fits_identifier
    {n : Nat}
    {name : Identifier} :
    (identifier name).Fits (n + 1) ↔
      Path.IsPatternPath ⟨[name], name.span⟩ := by
  constructor
  · intro hFits
    rcases hFits with ⟨hKeyword, -⟩
    cases hKeyword with
    | identifier hName => exact hName
  · intro hName
    exact ⟨.identifier hName, by simp [height]⟩

/- A literal has nothing inside it. -/
theorem fits_literal
    {n : Nat}
    {l : Literal} :
    (literal l).Fits (n + 1) :=
  ⟨.literal, by simp [height]⟩

theorem fits_wildcard
    {n : Nat}
    {span : Span} :
    (wildcard span).Fits (n + 1) :=
  ⟨.wildcard, by simp [height]⟩

/-
  A pattern with parentheses takes a level, and its elements
  share the others.
-/
theorem fits_tupleStruct
    {n : Nat}
    {path : Path}
    {elements : List Pattern}
    {span : Span} :
    (tupleStruct path elements span).Fits (n + 1) ↔
      path.IsPatternPath ∧ ∀ p ∈ elements, p.Fits n := by
  have hHeight :
      (tupleStruct path elements span).height ≤ n + 1 ↔
        ∀ p ∈ elements, p.height ≤ n := by
    simp [height, highest_map_le_iff]
  constructor
  · intro hFits
    rcases hFits with ⟨hKeyword, hLevels⟩
    cases hKeyword with
    | tupleStruct hPath hElements =>
        refine ⟨hPath, ?_⟩
        intro p hMem
        exact ⟨hElements p hMem, hHeight.mp hLevels p hMem⟩
  · intro hFits
    rcases hFits with ⟨hPath, hFits⟩
    exact
      ⟨.tupleStruct hPath fun p hMem => (hFits p hMem).1,
        hHeight.mpr fun p hMem => (hFits p hMem).2⟩

end Pattern

------------------------------------------------------------
-- Expressions And Blocks
------------------------------------------------------------

/- An expression fits into a number of levels. -/
def Expression.Fits
    (n : Nat)
    (e : Expression) : Prop :=
  e.KeywordWins ∧ e.height ≤ n

/- A block fits into a number of levels. -/
def Block.Fits
    (n : Nat)
    (b : Block) : Prop :=
  b.KeywordWins ∧ b.height ≤ n

/- The parts of a statement fit into a number of levels. -/
def Statement.Fits
    (n : Nat)
    (s : Statement) : Prop :=
  s.KeywordWins ∧ s.height ≤ n

/- The parts of a `let` fit into a number of levels. -/
def LetBinding.Fits
    (n : Nat)
    (b : LetBinding) : Prop :=
  b.KeywordWins ∧ b.height ≤ n

/- The parts of a `match` fit into a number of levels. -/
def Match.Fits
    (n : Nat)
    (m : Match) : Prop :=
  m.KeywordWins ∧ m.height ≤ n

/- The parts of an arm fit into a number of levels. -/
def MatchArm.Fits
    (n : Nat)
    (a : MatchArm) : Prop :=
  a.KeywordWins ∧ a.height ≤ n

namespace Expression

/- Every expression takes a level. -/
theorem not_fits_zero
    (e : Expression) :
    ¬ e.Fits 0 := by
  intro hFits
  have hHeight := hFits.2
  cases e with
  | literal l => simp [height] at hHeight
  | path p => simp [height] at hHeight
  | block b => simp [height] at hHeight
  | matching m => simp [height] at hHeight

/- A literal fits as soon as there is a level. -/
theorem fits_literal
    {n : Nat}
    {l : Literal} :
    (literal l).Fits (n + 1) :=
  ⟨.literal, by simp [height]⟩

/-
  So does a path, unless it starts like another form of
  expression.
-/
theorem fits_path
    {n : Nat}
    {p : Path} :
    (path p).Fits (n + 1) ↔ p.IsExpressionPath := by
  constructor
  · intro hFits
    rcases hFits with ⟨hKeyword, -⟩
    cases hKeyword with
    | path hPath => exact hPath
  · intro hPath
    exact ⟨.path hPath, by simp [height]⟩

/-
  A block that is an expression takes one level more than
  the block.
-/
theorem fits_block
    {n : Nat}
    {b : Block} :
    (block b).Fits (n + 1) ↔ b.Fits n := by
  constructor
  · intro hFits
    rcases hFits with ⟨hKeyword, hHeight⟩
    simp only [height, Nat.add_le_add_iff_right] at hHeight
    cases hKeyword with
    | block hBlock => exact ⟨hBlock, hHeight⟩
  · intro hFits
    rcases hFits with ⟨hKeyword, hHeight⟩
    exact
      ⟨.block hKeyword, by
        simpa only [height, Nat.add_le_add_iff_right]⟩

/- The parts of a match have the levels that it leaves. -/
theorem fits_matching
    {n : Nat}
    {m : Match} :
    (matching m).Fits (n + 1) ↔ m.Fits n := by
  constructor
  · intro hFits
    rcases hFits with ⟨hKeyword, hHeight⟩
    simp only [height, Nat.add_le_add_iff_right] at hHeight
    cases hKeyword with
    | matching hMatch => exact ⟨hMatch, hHeight⟩
  · intro hFits
    rcases hFits with ⟨hKeyword, hHeight⟩
    exact
      ⟨.matching hKeyword, by
        simpa only [height, Nat.add_le_add_iff_right]⟩

end Expression

namespace Block

theorem not_fits_zero
    (b : Block) :
    ¬ b.Fits 0 := by
  intro hFits
  have hHeight := hFits.2
  cases b with
  | mk statements tail span => simp [height] at hHeight

/-
  A block takes a level, and no expression in it may start
  like a binding.
-/
theorem fits_mk
    {n : Nat}
    {statements : List Statement}
    {tail : Option Expression}
    {span : Span} :
    Block.Fits (n + 1) ⟨statements, tail, span⟩ ↔
      (∀ s ∈ statements, s.Fits n) ∧
      ∀ e ∈ tail,
        e.Fits n ∧
          ¬ e.BeginsWith Keyword.letKw.spelling := by
  have hHeight :
      Block.height ⟨statements, tail, span⟩ ≤ n + 1 ↔
        (∀ s ∈ statements, s.height ≤ n) ∧
          ∀ e ∈ tail, e.height ≤ n := by
    simp only [height, statementHeights_eq,
      Expression.optionHeight_eq, Nat.add_le_add_iff_right,
      Nat.max_le, highest_map_le_iff,
      highest_option_le_iff]
  constructor
  · intro hFits
    rcases hFits with ⟨hKeyword, hLevels⟩
    rcases hHeight.mp hLevels with ⟨hLow, hLowTail⟩
    cases hKeyword with
    | mk hStatements hTail hLet =>
        refine ⟨?_, ?_⟩
        · intro s hMem
          exact ⟨hStatements s hMem, hLow s hMem⟩
        · intro e hMem
          exact
            ⟨⟨hTail e hMem, hLowTail e hMem⟩, hLet e hMem⟩
  · intro hFits
    rcases hFits with ⟨hFits, hTail⟩
    refine ⟨.mk ?_ ?_ ?_, hHeight.mpr ⟨?_, ?_⟩⟩
    · exact fun s hMem => (hFits s hMem).1
    · exact fun e hMem => (hTail e hMem).1.1
    · exact fun e hMem => (hTail e hMem).2
    · exact fun s hMem => (hFits s hMem).2
    · exact fun e hMem => (hTail e hMem).1.2

end Block

namespace Statement

/- A statement takes no level of its own. -/
theorem fits_binding
    {n : Nat}
    {b : LetBinding} :
    (binding b).Fits n ↔ b.Fits n := by
  constructor
  · intro hFits
    rcases hFits with ⟨hKeyword, hHeight⟩
    simp only [height] at hHeight
    cases hKeyword with
    | binding hBinding => exact ⟨hBinding, hHeight⟩
  · intro hFits
    rcases hFits with ⟨hKeyword, hHeight⟩
    exact ⟨.binding hKeyword, by simpa only [height]⟩

/-
  An expression with a semicolon fits if it could not be
  read as a binding.
-/
theorem fits_expression
    {n : Nat}
    {value : Expression}
    {span : Span} :
    (expression value span).Fits n ↔
      value.Fits n ∧
        ¬ value.BeginsWith Keyword.letKw.spelling := by
  constructor
  · intro hFits
    rcases hFits with ⟨hKeyword, hHeight⟩
    simp only [height] at hHeight
    cases hKeyword with
    | expression hValue hLet =>
        exact ⟨⟨hValue, hHeight⟩, hLet⟩
  · intro hFits
    rcases hFits with ⟨⟨hValue, hHeight⟩, hLet⟩
    exact
      ⟨.expression hValue hLet, by simpa only [height]⟩

end Statement

/-
  Without `mut`, the name of a binding may not be that word.
-/
theorem LetBinding.fits_mk
    {n : Nat}
    {isMut : Bool}
    {name : Identifier}
    {ty : Option Ty}
    {value : Option Expression}
    {span : Span} :
    LetBinding.Fits n ⟨isMut, name, ty, value, span⟩ ↔
      (isMut = false →
        name.name ≠ Keyword.mutKw.spelling) ∧
      (∀ t ∈ ty, t.Fits n) ∧
      ∀ e ∈ value, e.Fits n := by
  have hHeight :
      LetBinding.height ⟨isMut, name, ty, value, span⟩ ≤ n ↔
        (∀ t ∈ ty, t.height ≤ n) ∧
          ∀ e ∈ value, e.height ≤ n := by
    simp only [height, Expression.optionHeight_eq,
      Nat.max_le, highest_option_le_iff]
  constructor
  · intro hFits
    rcases hFits with ⟨hKeyword, hLevels⟩
    rcases hHeight.mp hLevels with ⟨hLowTy, hLowValue⟩
    cases hKeyword with
    | mk hMut hTy hValue =>
        refine ⟨hMut, ?_, ?_⟩
        · intro t hMem
          exact ⟨hTy t hMem, hLowTy t hMem⟩
        · intro e hMem
          exact ⟨hValue e hMem, hLowValue e hMem⟩
  · intro hFits
    rcases hFits with ⟨hMut, hTy, hValue⟩
    refine ⟨.mk hMut ?_ ?_, hHeight.mpr ⟨?_, ?_⟩⟩
    · exact fun t hMem => (hTy t hMem).1
    · exact fun e hMem => (hValue e hMem).1
    · exact fun t hMem => (hTy t hMem).2
    · exact fun e hMem => (hValue e hMem).2

/- A match fits if its subject and its arms do. -/
theorem Match.fits_mk
    {n : Nat}
    {value : Expression}
    {arms : List MatchArm}
    {span : Span} :
    Match.Fits n ⟨value, arms, span⟩ ↔
      value.Fits n ∧ ∀ a ∈ arms, a.Fits n := by
  have hHeight :
      Match.height ⟨value, arms, span⟩ ≤ n ↔
        value.height ≤ n ∧ ∀ a ∈ arms, a.height ≤ n := by
    simp only [height, armHeights_eq, Nat.max_le,
      highest_map_le_iff]
  constructor
  · intro hFits
    rcases hFits with ⟨hKeyword, hLevels⟩
    rcases hHeight.mp hLevels with ⟨hLowValue, hLowArms⟩
    cases hKeyword with
    | mk hValue hArms =>
        refine ⟨⟨hValue, hLowValue⟩, ?_⟩
        intro a hMem
        exact ⟨hArms a hMem, hLowArms a hMem⟩
  · intro hFits
    rcases hFits with ⟨⟨hValue, hLowValue⟩, hArms⟩
    refine ⟨.mk hValue ?_, hHeight.mpr ⟨hLowValue, ?_⟩⟩
    · exact fun a hMem => (hArms a hMem).1
    · exact fun a hMem => (hArms a hMem).2

/- An arm fits if its pattern and its body do. -/
theorem MatchArm.fits_mk
    {n : Nat}
    {pattern : Pattern}
    {value : Expression}
    {span : Span} :
    MatchArm.Fits n ⟨pattern, value, span⟩ ↔
      pattern.Fits n ∧ value.Fits n := by
  have hHeight :
      MatchArm.height ⟨pattern, value, span⟩ ≤ n ↔
        pattern.height ≤ n ∧ value.height ≤ n := by
    simp only [height, Nat.max_le]
  constructor
  · intro hFits
    rcases hFits with ⟨hKeyword, hLevels⟩
    rcases hHeight.mp hLevels with ⟨hLowPattern, hLowValue⟩
    cases hKeyword with
    | mk hPattern hValue =>
        exact
          ⟨⟨hPattern, hLowPattern⟩, ⟨hValue, hLowValue⟩⟩
  · intro hFits
    rcases hFits with
      ⟨⟨hPattern, hLowPattern⟩, ⟨hValue, hLowValue⟩⟩
    exact
      ⟨.mk hPattern hValue,
        hHeight.mpr ⟨hLowPattern, hLowValue⟩⟩

end FeSyntax
