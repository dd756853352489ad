import FeSyntax.Proofs.Syntax.KeywordWins

/-
  This file defines how many levels of nesting a syntax tree
  has.  There is one level for a definition, a function of a
  trait or an impl, a type expression, an expression, a
  block and a pattern.

  Key definitions include:
    * `highest`
    * `Ty.height`
    * `Pattern.height`
    * `Expression.height`
    * `Definition.height`
    * `SourceFile.height`
-/

namespace FeSyntax

------------------------------------------------------------
-- The Highest Of Several Trees
------------------------------------------------------------

/- The greatest of some heights, and zero without any. -/
def highest
    (heights : List Nat) : Nat :=
  heights.foldr max 0

/-
  The highest of several heights is within a bound if all of
  them are.
-/
theorem highest_le_iff
    {heights : List Nat}
    {n : Nat} :
    highest heights ≤ n ↔ ∀ h ∈ heights, h ≤ n := by
  induction heights with
  | nil => simp [highest]
  | cons h heights ih =>
      simp only [highest, List.foldr_cons,
        List.forall_mem_cons] at ih ⊢
      rw [← ih]
      exact Nat.max_le

/- The same holds for the heights of trees. -/
theorem highest_map_le_iff
    {α : Type}
    {height : α → Nat}
    {trees : List α}
    {n : Nat} :
    highest (trees.map height) ≤ n ↔
      ∀ x ∈ trees, height x ≤ n := by
  simp [highest_le_iff]

/- The same holds for a tree that may be missing. -/
theorem highest_option_le_iff
    {α : Type}
    {height : α → Nat}
    {tree : Option α}
    {n : Nat} :
    highest (tree.map height).toList ≤ n ↔
      ∀ x ∈ tree, height x ≤ n := by
  cases tree with
  | none => simp [highest]
  | some x => simp [highest]

------------------------------------------------------------
-- Heights Of Types And Patterns
------------------------------------------------------------

namespace Ty

mutual

/- The number of levels of a type expression. -/
def height : Ty → Nat
  | path _ => 1
  | reference _ inner _ => inner.height + 1
  | tuple elements _ => highest (heights elements) + 1
  | primitive _ _ => 1

/- The number of levels of each type expression. -/
def heights : List Ty → List Nat
  | [] => []
  | ty :: tys => ty.height :: heights tys

end

/- The heights of a list are those of its types. -/
@[simp] theorem heights_eq
    (tys : List Ty) :
    heights tys = tys.map height := by
  induction tys with
  | nil => rfl
  | cons ty tys ih => simp [heights, ih]

end Ty

namespace Pattern

mutual

/- The number of levels of a pattern. -/
def height : Pattern → Nat
  | identifier _ => 1
  | literal _ => 1
  | wildcard _ => 1
  | tupleStruct _ elements _ =>
      highest (heights elements) + 1

/- The number of levels of each pattern. -/
def heights : List Pattern → List Nat
  | [] => []
  | p :: ps => p.height :: heights ps

end

/- The heights of a list are those of its patterns. -/
@[simp] theorem heights_eq
    (ps : List Pattern) :
    heights ps = ps.map height := by
  induction ps with
  | nil => rfl
  | cons p ps ih => simp [heights, ih]

end Pattern

------------------------------------------------------------
-- Heights Of Expressions And Blocks
------------------------------------------------------------

mutual

/- The number of levels of an expression. -/
def Expression.height : Expression → Nat
  | .literal _ => 1
  | .path _ => 1
  | .block b => b.height + 1
  | .matching m => m.height + 1

/- The number of levels of a block. -/
def Block.height : Block → Nat
  | ⟨statements, tail, _⟩ =>
      max (highest (Block.statementHeights statements))
        (highest (Expression.optionHeight tail).toList) + 1

/- The number of levels inside a statement. -/
def Statement.height : Statement → Nat
  | .binding b => b.height
  | .expression value _ => value.height

/- The number of levels inside a `let`. -/
def LetBinding.height : LetBinding → Nat
  | ⟨_, _, ty, value, _⟩ =>
      max (highest (ty.map Ty.height).toList)
        (highest (Expression.optionHeight value).toList)

/- The number of levels inside a `match`. -/
def Match.height : Match → Nat
  | ⟨value, arms, _⟩ =>
      max value.height (highest (Match.armHeights arms))

/- The number of levels inside an arm. -/
def MatchArm.height : MatchArm → Nat
  | ⟨pattern, value, _⟩ => max pattern.height value.height

/- The number of levels inside each statement. -/
def Block.statementHeights : List Statement → List Nat
  | [] => []
  | s :: ss => s.height :: Block.statementHeights ss

/- The number of levels inside each arm. -/
def Match.armHeights : List MatchArm → List Nat
  | [] => []
  | a :: as => a.height :: Match.armHeights as

/- The number of levels of an optional expression. -/
def Expression.optionHeight :
    Option Expression → Option Nat
  | none => none
  | some e => some e.height

end

/- The heights of a list are those of its statements. -/
@[simp] theorem Block.statementHeights_eq
    (ss : List Statement) :
    statementHeights ss = ss.map Statement.height := by
  induction ss with
  | nil => rfl
  | cons s ss ih => simp [statementHeights, ih]

/- The heights of a list are those of its arms. -/
@[simp] theorem Match.armHeights_eq
    (arms : List MatchArm) :
    armHeights arms = arms.map MatchArm.height := by
  induction arms with
  | nil => rfl
  | cons a arms ih => simp [armHeights, ih]

/- An expression that is missing has no height. -/
@[simp] theorem Expression.optionHeight_eq
    (e : Option Expression) :
    optionHeight e = e.map Expression.height := by
  cases e with
  | none => rfl
  | some e => rfl

------------------------------------------------------------
-- Heights Of Definitions
------------------------------------------------------------

/- The number of levels inside a function. -/
def Function.height
    (f : Function) : Nat :=
  max (highest (f.params.map fun p => p.ty.height))
    (max (highest (f.returnType.map Ty.height).toList)
      f.body.height)

/- A member of a trait or an impl takes a level itself. -/
def Function.memberHeight
    (f : Function) : Nat :=
  f.height + 1

/- The number of levels inside a struct. -/
def Struct.height
    (s : Struct) : Nat :=
  highest ((s.fields.getD []).map fun f => f.ty.height)

/- The number of levels inside a constant. -/
def Constant.height
    (c : Constant) : Nat :=
  max c.ty.height c.value.height

/- The number of levels inside a trait. -/
def Trait.height
    (t : Trait) : Nat :=
  highest (t.functions.map Function.memberHeight)

/- The number of levels inside an impl. -/
def Impl.height
    (i : Impl) : Nat :=
  max i.ty.height
    (max (highest (i.traitTy.map Ty.height).toList)
      (highest (i.functions.map Function.memberHeight)))

mutual

/- The number of levels of a definition. -/
def Definition.height : Definition → Nat
  | .module m => m.height + 1
  | .function f => f.height + 1
  | .struct s => s.height + 1
  | .constant c => c.height + 1
  | .typeAlias a => a.ty.height + 1
  | .trait t => t.height + 1
  | .impl i => i.height + 1

/- The number of levels inside a module. -/
def Module.height : Module → Nat
  | ⟨_, definitions, _⟩ =>
      highest (Module.definitionHeights definitions)

/- The number of levels of each definition. -/
def Module.definitionHeights : List Definition → List Nat
  | [] => []
  | d :: ds => d.height :: Module.definitionHeights ds

end

/- The heights of a list are those of its definitions. -/
@[simp] theorem Module.definitionHeights_eq
    (ds : List Definition) :
    definitionHeights ds = ds.map Definition.height := by
  induction ds with
  | nil => rfl
  | cons d ds ih => simp [definitionHeights, ih]

/- The number of levels of a file. -/
def SourceFile.height
    (f : SourceFile) : Nat :=
  highest (f.definitions.map Definition.height)

end FeSyntax
