import FeSyntax.Ast.Named
import FeSyntax.Proofs.Syntax.Rename
import FeSyntax.Proofs.Syntax.Shape

/-
  This file proves that the named tree of a syntax tree
  shows neither spans nor payloads: it stays the same when
  names and literals are renamed and spans are changed.  So
  the S-expressions of two files are the same if the files
  have one shape up to a renaming.

  Key theorems include:
    * `Ty.named_same`
    * `Pattern.named_same`
    * `Expression.named_same`
    * `Definition.named_same`
    * `SourceFile.sexp_of_shape_eq`
-/

namespace FeSyntax

variable (r : Renaming)
variable (f : Span → Span)

------------------------------------------------------------
-- Names And Literals
------------------------------------------------------------

/-
  The node of a name shows neither the name nor its place.
-/
@[simp] theorem Identifier.named_same
    (i : Identifier) :
    ((i.rename r).mapSpans f).named = i.named :=
  rfl

/- Neither does its node without a field. -/
@[simp] theorem Identifier.bare_same
    (i : Identifier) :
    ((i.rename r).mapSpans f).bare = i.bare :=
  rfl

/-
  Type parameters are shown as a list of such nodes, or not
  at all.
-/
@[simp] theorem Identifier.typeParamsNamed_same
    (names : List Identifier) :
    typeParamsNamed
        ((names.map (rename r)).map (mapSpans f)) =
      typeParamsNamed names := by
  cases names with
  | nil => rfl
  | cons name names =>
      simp [typeParamsNamed, Function.comp_def]

/-
  A path shows how many segments it has, and none of their
  names.
-/
@[simp] theorem Path.named_same
    (field : Option FieldName)
    (p : Path) :
    ((p.rename r).mapSpans f).named field =
      p.named field := by
  simp [named, mapSpans, rename, Function.comp_def]

/-
  A literal shows its kind only, so nothing of it is
  renamed.
-/
@[simp] theorem Literal.named_same
    (field : Option FieldName)
    (l : Literal) :
    ((l.rename r).mapSpans f).named field =
      l.named field := by
  rcases l with ⟨value, span⟩
  cases value <;> rfl

------------------------------------------------------------
-- Types And Patterns
------------------------------------------------------------

mutual

/- A type shows its form and those of its parts. -/
@[simp] theorem Ty.named_same
    (field : Option FieldName)
    (ty : Ty) :
    ((ty.rename r).mapSpans f).named field =
      ty.named field := by
  cases ty with
  | path p => simp [Ty.rename, Ty.mapSpans, Ty.named]
  | reference isMut inner span =>
      simp [Ty.rename, Ty.mapSpans, Ty.named,
        Ty.named_same none inner]
  | tuple elements span =>
      simp [Ty.rename, Ty.mapSpans, Ty.named,
        -List.map_map, Ty.namedAll_same elements]
  | primitive kind span => rfl

theorem Ty.namedAll_same
    (tys : List Ty) :
    Ty.namedAll
        ((tys.map (Ty.rename r)).map (Ty.mapSpans f)) =
      Ty.namedAll tys := by
  cases tys with
  | nil => rfl
  | cons ty tys =>
      simp [Ty.namedAll, -List.map_map,
        Ty.named_same none ty, Ty.namedAll_same tys]

end

mutual

/- A pattern shows its form and those of its parts. -/
@[simp] theorem Pattern.named_same
    (field : Option FieldName)
    (p : Pattern) :
    ((p.rename r).mapSpans f).named field =
      p.named field := by
  cases p with
  | identifier name => rfl
  | literal l =>
      simp [Pattern.rename, Pattern.mapSpans, Pattern.named]
  | wildcard span => rfl
  | tupleStruct path elements span =>
      simp [Pattern.rename, Pattern.mapSpans, Pattern.named,
        -List.map_map, Pattern.namedAll_same field elements]

/-
  The same holds for patterns in a list, which share a
  field.
-/
theorem Pattern.namedAll_same
    (field : Option FieldName)
    (ps : List Pattern) :
    Pattern.namedAll field
        ((ps.map (Pattern.rename r)).map
          (Pattern.mapSpans f)) =
      Pattern.namedAll field ps := by
  cases ps with
  | nil => rfl
  | cons p ps =>
      simp [Pattern.namedAll, -List.map_map,
        Pattern.named_same field p,
        Pattern.namedAll_same field ps]

end

------------------------------------------------------------
-- Expressions And Blocks
------------------------------------------------------------

mutual

/- An expression shows its form and those of its parts. -/
@[simp] theorem Expression.named_same
    (field : Option FieldName)
    (e : Expression) :
    ((e.rename r).mapSpans f).named field =
      e.named field := by
  cases e with
  | literal l =>
      simp [Expression.rename, Expression.mapSpans,
        Expression.named]
  | path p =>
      simp [Expression.rename, Expression.mapSpans,
        Expression.named]
  | block b =>
      simp [Expression.rename, Expression.mapSpans,
        Expression.named, Block.named_same field b]
  | matching m =>
      simp [Expression.rename, Expression.mapSpans,
        Expression.named, Match.named_same field m]

/- A block shows its statements and its last expression. -/
@[simp] theorem Block.named_same
    (field : Option FieldName)
    (b : Block) :
    ((b.rename r).mapSpans f).named field =
      b.named field := by
  rcases b with ⟨statements, tail, span⟩
  simp [Block.rename, Block.mapSpans, Block.named,
    -List.map_map, -Option.map_map,
    Block.namedStatements_same statements,
    Expression.namedOption_same none tail]

/-
  A statement shows a binding, or just the expression in it.
-/
theorem Statement.named_same
    (s : Statement) :
    ((s.rename r).mapSpans f).named = s.named := by
  cases s with
  | binding b =>
      simp [Statement.rename, Statement.mapSpans,
        Statement.named, LetBinding.named_same b]
  | expression value span =>
      simp [Statement.rename, Statement.mapSpans,
        Statement.named, Expression.named_same none value]

/- A binding shows if it has a type and a value. -/
theorem LetBinding.named_same
    (b : LetBinding) :
    ((b.rename r).mapSpans f).named = b.named := by
  rcases b with ⟨isMut, name, ty, value, span⟩
  have hValue :=
    Expression.namedOption_same (some .value) value
  rw [Option.map_map] at hValue
  simpa [LetBinding.rename, LetBinding.mapSpans,
    LetBinding.named, Function.comp_def] using hValue

/- A match shows its subject and its arms. -/
theorem Match.named_same
    (field : Option FieldName)
    (m : Match) :
    ((m.rename r).mapSpans f).named field =
      m.named field := by
  rcases m with ⟨value, arms, span⟩
  simp [Match.rename, Match.mapSpans, Match.named,
    -List.map_map,
    Expression.named_same (some .value) value,
    Match.namedArms_same arms]

/- An arm shows its pattern and its body. -/
theorem MatchArm.named_same
    (a : MatchArm) :
    ((a.rename r).mapSpans f).named = a.named := by
  rcases a with ⟨pattern, value, span⟩
  simp [MatchArm.rename, MatchArm.mapSpans, MatchArm.named,
    Expression.named_same (some .value) value]

/- Statements in a list show their nodes in turn. -/
theorem Block.namedStatements_same
    (ss : List Statement) :
    Block.namedStatements
        ((ss.map (Statement.rename r)).map
          (Statement.mapSpans f)) =
      Block.namedStatements ss := by
  cases ss with
  | nil => rfl
  | cons s ss =>
      simp [Block.namedStatements, -List.map_map,
        Statement.named_same s,
        Block.namedStatements_same ss]

theorem Match.namedArms_same
    (arms : List MatchArm) :
    Match.namedArms
        ((arms.map (MatchArm.rename r)).map
          (MatchArm.mapSpans f)) =
      Match.namedArms arms := by
  cases arms with
  | nil => rfl
  | cons a arms =>
      simp [Match.namedArms, -List.map_map,
        MatchArm.named_same a, Match.namedArms_same arms]

/- An expression that is missing stays missing. -/
theorem Expression.namedOption_same
    (field : Option FieldName)
    (e : Option Expression) :
    Expression.namedOption field
        ((e.map (Expression.rename r)).map
          (Expression.mapSpans f)) =
      Expression.namedOption field e := by
  cases e with
  | none => rfl
  | some e =>
      simp [Expression.namedOption,
        Expression.named_same field e]

end

------------------------------------------------------------
-- Definitions
------------------------------------------------------------

/- A parameter shows its type behind a name. -/
@[simp] theorem Param.named_same
    (p : Param) :
    ((p.rename r).mapSpans f).named = p.named := by
  simp [Param.rename, Param.mapSpans, Param.named]

@[simp] theorem Field.named_same
    (d : Field) :
    ((d.rename r).mapSpans f).named = d.named := by
  simp [Field.rename, Field.mapSpans, Field.named]

@[simp] theorem Function.paramsNamed_same
    (ps : List Param) :
    paramsNamed
        ((ps.map (Param.rename r)).map (Param.mapSpans f)) =
      paramsNamed ps := by
  cases ps with
  | nil => rfl
  | cons p ps => simp [paramsNamed, Function.comp_def]

/-
  A function shows its parameters, its types and its block.
-/
@[simp] theorem Function.named_same
    (d : Function) :
    ((d.rename r).mapSpans f).named = d.named := by
  simp [Function.rename, Function.mapSpans, Function.named,
    -List.map_map, Function.comp_def]

/- A struct shows if it has a list of fields. -/
@[simp] theorem Struct.named_same
    (d : Struct) :
    ((d.rename r).mapSpans f).named = d.named := by
  rcases d with ⟨isPub, name, typeParams, fields, span⟩
  cases fields with
  | none =>
      simp [Struct.rename, Struct.mapSpans, Struct.named,
        -List.map_map]
  | some fields =>
      have hFields :
          ((fields.map (Field.rename r)).map
              (Field.mapSpans f)).map Field.named =
            fields.map Field.named := by
        simp [Function.comp_def]
      simp [Struct.rename, Struct.mapSpans, Struct.named,
        -List.map_map, hFields]

/- A constant shows its type and its value. -/
@[simp] theorem Constant.named_same
    (d : Constant) :
    ((d.rename r).mapSpans f).named = d.named := by
  simp [Constant.rename, Constant.mapSpans, Constant.named]

/- A type alias shows the type that it stands for. -/
@[simp] theorem TypeAlias.named_same
    (d : TypeAlias) :
    ((d.rename r).mapSpans f).named = d.named := by
  simp [TypeAlias.rename, TypeAlias.mapSpans,
    TypeAlias.named, -List.map_map]

/- Functions in a list show their nodes in turn. -/
theorem Function.map_named_same
    (ds : List Function) :
    ((ds.map (rename r)).map (mapSpans f)).map named =
      ds.map named := by
  simp [Function.comp_def]

@[simp] theorem Trait.named_same
    (d : Trait) :
    ((d.rename r).mapSpans f).named = d.named := by
  simp [Trait.rename, Trait.mapSpans, Trait.named,
    -List.map_map, Function.map_named_same]

/- An implementation shows its types and its functions. -/
@[simp] theorem Impl.named_same
    (d : Impl) :
    ((d.rename r).mapSpans f).named = d.named := by
  simp [Impl.rename, Impl.mapSpans, Impl.named,
    -List.map_map, Function.map_named_same,
    Function.comp_def]

mutual

/-
  A definition shows what it is, and nothing of its names.
-/
theorem Definition.named_same
    (d : Definition) :
    ((d.rename r).mapSpans f).named = d.named := by
  cases d with
  | module m =>
      simp [Definition.rename, Definition.mapSpans,
        Definition.named, Module.named_same m]
  | _ =>
      simp [Definition.rename, Definition.mapSpans,
        Definition.named]

/- A module shows its definitions. -/
theorem Module.named_same
    (m : Module) :
    ((m.rename r).mapSpans f).named = m.named := by
  rcases m with ⟨name, definitions, span⟩
  simp [Module.rename, Module.mapSpans, Module.named,
    -List.map_map, Module.namedDefinitions_same definitions]

/- The same holds for definitions in a list. -/
theorem Module.namedDefinitions_same
    (ds : List Definition) :
    Module.namedDefinitions
        ((ds.map (Definition.rename r)).map
          (Definition.mapSpans f)) =
      Module.namedDefinitions ds := by
  cases ds with
  | nil => rfl
  | cons d ds =>
      simp [Module.namedDefinitions, -List.map_map,
        Definition.named_same d,
        Module.namedDefinitions_same ds]

end

------------------------------------------------------------
-- S-Expressions
------------------------------------------------------------

namespace SourceFile

/- Files of one shape up to names have one S-expression. -/
theorem sexp_of_shape_eq
    {g h : SourceFile}
    (hShape : g.shape = (h.rename r).shape) :
    g.sexp = h.sexp := by
  have hSame :
      g.definitions.map (Definition.mapSpans .forget) =
        (h.definitions.map (Definition.rename r)).map
          (Definition.mapSpans .forget) :=
    congrArg definitions hShape
  have hNamed := congrArg Module.namedDefinitions hSame
  have hLeft :=
    Module.namedDefinitions_same .identity .forget
      g.definitions
  rw [Definition.map_rename_identity] at hLeft
  rw [Module.namedDefinitions_same, hLeft] at hNamed
  rw [sexp, sexp, named, named, hNamed]

end SourceFile

end FeSyntax
