import FeSyntax.Proofs.Syntax.Height
import FeSyntax.Proofs.Syntax.Shape

/-
  This file proves that the height of a syntax tree does not
  depend on its spans, so trees of one shape have one
  height.

  Key theorems include:
    * `Ty.height_mapSpans`
    * `Pattern.height_mapSpans`
    * `Expression.height_mapSpans`
    * `Definition.height_mapSpans`
    * `SourceFile.height_eq_of_shape_eq`
-/

namespace FeSyntax

variable (f : Span → Span)

------------------------------------------------------------
-- Types And Patterns
------------------------------------------------------------

namespace Ty

mutual

/- A type is as high as before, whatever its spans. -/
@[simp] theorem height_mapSpans
    (ty : Ty) :
    (ty.mapSpans f).height = ty.height := by
  cases ty with
  | path p => rfl
  | reference isMut inner span =>
      rw [mapSpans, height, height, height_mapSpans inner]
  | tuple elements span =>
      rw [mapSpans, height, height,
        heights_mapSpansAll elements]
  | primitive kind span => rfl

theorem heights_mapSpansAll
    (tys : List Ty) :
    heights (mapSpansAll f tys) = heights tys := by
  cases tys with
  | nil => rfl
  | cons ty tys =>
      rw [mapSpansAll, heights, heights, height_mapSpans ty,
        heights_mapSpansAll tys]

end

end Ty

namespace Pattern

mutual

/- Nor does the height of a pattern depend on its spans. -/
@[simp] theorem height_mapSpans
    (p : Pattern) :
    (p.mapSpans f).height = p.height := by
  cases p with
  | identifier name => rfl
  | literal l => rfl
  | wildcard span => rfl
  | tupleStruct path elements span =>
      rw [mapSpans, height, height,
        heights_mapSpansAll elements]

theorem heights_mapSpansAll
    (ps : List Pattern) :
    heights (mapSpansAll f ps) = heights ps := by
  cases ps with
  | nil => rfl
  | cons p ps =>
      rw [mapSpansAll, heights, heights, height_mapSpans p,
        heights_mapSpansAll ps]

end

end Pattern

/- The heights of types that may be left out. -/
theorem Ty.map_height_mapSpans
    (ty : Option Ty) :
    (ty.map (mapSpans f)).map height = ty.map height := by
  cases ty with
  | none => rfl
  | some ty => simp

------------------------------------------------------------
-- Expressions And Blocks
------------------------------------------------------------

mutual

/-
  An expression is as high as before, by induction over all
  that it contains.
-/
@[simp] theorem Expression.height_mapSpans
    (e : Expression) :
    (e.mapSpans f).height = e.height := by
  cases e with
  | literal l => rfl
  | path p => rfl
  | block b =>
      rw [Expression.mapSpans, Expression.height,
        Expression.height, Block.height_mapSpans b]
  | matching m =>
      rw [Expression.mapSpans, Expression.height,
        Expression.height, Match.height_mapSpans m]

/- The half of it about blocks. -/
@[simp] theorem Block.height_mapSpans
    (b : Block) :
    (b.mapSpans f).height = b.height := by
  rcases b with ⟨statements, tail, span⟩
  rw [Block.mapSpans, Block.height, Block.height,
    Block.statementHeights_mapSpans statements,
    Expression.optionHeight_mapSpans tail]

theorem Statement.height_mapSpans
    (s : Statement) :
    (s.mapSpans f).height = s.height := by
  cases s with
  | binding b =>
      rw [Statement.mapSpans, Statement.height,
        Statement.height, LetBinding.height_mapSpans b]
  | expression value span =>
      rw [Statement.mapSpans, Statement.height,
        Statement.height, Expression.height_mapSpans value]

theorem LetBinding.height_mapSpans
    (b : LetBinding) :
    (b.mapSpans f).height = b.height := by
  rcases b with ⟨isMut, name, ty, value, span⟩
  rw [LetBinding.mapSpans, LetBinding.height,
    LetBinding.height, Ty.map_height_mapSpans,
    Expression.optionHeight_mapSpans value]

theorem Match.height_mapSpans
    (m : Match) :
    (m.mapSpans f).height = m.height := by
  rcases m with ⟨value, arms, span⟩
  rw [Match.mapSpans, Match.height, Match.height,
    Expression.height_mapSpans value,
    Match.armHeights_mapSpans arms]

/-
  The height of an arm is that of its pattern or of its
  body, whichever is greater.
-/
theorem MatchArm.height_mapSpans
    (a : MatchArm) :
    (a.mapSpans f).height = a.height := by
  rcases a with ⟨pattern, value, span⟩
  rw [MatchArm.mapSpans, MatchArm.height, MatchArm.height,
    Pattern.height_mapSpans,
    Expression.height_mapSpans value]

/- The statements of a list are as high as before. -/
theorem Block.statementHeights_mapSpans
    (ss : List Statement) :
    Block.statementHeights (Block.mapStatementSpans f ss) =
      Block.statementHeights ss := by
  cases ss with
  | nil => rfl
  | cons s ss =>
      rw [Block.mapStatementSpans, Block.statementHeights,
        Block.statementHeights, Statement.height_mapSpans s,
        Block.statementHeights_mapSpans ss]

/- The arms of a list are as high as before. -/
theorem Match.armHeights_mapSpans
    (arms : List MatchArm) :
    Match.armHeights (Match.mapArmSpans f arms) =
      Match.armHeights arms := by
  cases arms with
  | nil => rfl
  | cons a arms =>
      rw [Match.mapArmSpans, Match.armHeights,
        Match.armHeights, MatchArm.height_mapSpans a,
        Match.armHeights_mapSpans arms]

/- A last expression that is left out stays left out. -/
theorem Expression.optionHeight_mapSpans
    (e : Option Expression) :
    Expression.optionHeight
        (Expression.mapOptionSpans f e) =
      Expression.optionHeight e := by
  cases e with
  | none => rfl
  | some e =>
      rw [Expression.mapOptionSpans,
        Expression.optionHeight, Expression.optionHeight,
        Expression.height_mapSpans e]

end

------------------------------------------------------------
-- Definitions
------------------------------------------------------------

/- A function is as high as before. -/
@[simp] theorem Function.height_mapSpans
    (d : Function) :
    (d.mapSpans f).height = d.height := by
  simp [Function.mapSpans, Function.height,
    Function.comp_def, Param.mapSpans]

/- As a member it takes one level more, as before. -/
@[simp] theorem Function.memberHeight_mapSpans
    (d : Function) :
    (d.mapSpans f).memberHeight = d.memberHeight := by
  rw [memberHeight, memberHeight, height_mapSpans]

/- A struct may be without any list of fields. -/
@[simp] theorem Struct.height_mapSpans
    (d : Struct) :
    (d.mapSpans f).height = d.height := by
  unfold Struct.mapSpans Struct.height
  cases d.fields with
  | none => rfl
  | some fields =>
      simp [Function.comp_def, Field.mapSpans]

@[simp] theorem Constant.height_mapSpans
    (d : Constant) :
    (d.mapSpans f).height = d.height := by
  simp [Constant.mapSpans, Constant.height]

@[simp] theorem Trait.height_mapSpans
    (d : Trait) :
    (d.mapSpans f).height = d.height := by
  simp [Trait.mapSpans, Trait.height, Function.comp_def]

@[simp] theorem Impl.height_mapSpans
    (d : Impl) :
    (d.mapSpans f).height = d.height := by
  simp [Impl.mapSpans, Impl.height, Function.comp_def]

mutual

/- Every form of definition, by those of its parts. -/
@[simp] theorem Definition.height_mapSpans
    (d : Definition) :
    (d.mapSpans f).height = d.height := by
  cases d with
  | module m =>
      rw [Definition.mapSpans, Definition.height,
        Definition.height, Module.height_mapSpans m]
  | function d =>
      simp [Definition.mapSpans, Definition.height]
  | struct d =>
      simp [Definition.mapSpans, Definition.height]
  | constant d =>
      simp [Definition.mapSpans, Definition.height]
  | typeAlias d =>
      simp [Definition.mapSpans, Definition.height,
        TypeAlias.mapSpans]
  | trait d =>
      simp [Definition.mapSpans, Definition.height]
  | impl d =>
      simp [Definition.mapSpans, Definition.height]

/- The half of it about modules. -/
theorem Module.height_mapSpans
    (m : Module) :
    (m.mapSpans f).height = m.height := by
  rcases m with ⟨name, definitions, span⟩
  rw [Module.mapSpans, Module.height, Module.height,
    Module.definitionHeights_mapSpans definitions]

/- The definitions of a list are as high as before. -/
theorem Module.definitionHeights_mapSpans
    (ds : List Definition) :
    Module.definitionHeights
        (Module.mapDefinitionSpans f ds) =
      Module.definitionHeights ds := by
  cases ds with
  | nil => rfl
  | cons d ds =>
      rw [Module.mapDefinitionSpans,
        Module.definitionHeights, Module.definitionHeights,
        Definition.height_mapSpans d,
        Module.definitionHeights_mapSpans ds]

end

------------------------------------------------------------
-- Files
------------------------------------------------------------

/- Files of one shape have one height. -/
theorem SourceFile.height_eq_of_shape_eq
    {f g : SourceFile}
    (hShape : f.shape = g.shape) :
    f.height = g.height := by
  have hHeight
      (f : SourceFile) :
      f.shape.height = f.height := by
    simp [shape, height, Function.comp_def]
  rw [← hHeight f, ← hHeight g, hShape]

end FeSyntax
