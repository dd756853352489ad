import FeSyntax.Ast.Definition

/-
  This file defines the shape of a syntax tree: what is left
  of the tree when all spans and all comments are forgotten.
  Two trees of one shape differ only in where their parts
  stand in a source text.

  Key definitions include:
    * `Ty.mapSpans`
    * `Pattern.mapSpans`
    * `Expression.mapSpans`
    * `Definition.mapSpans`
    * `Span.forget`
    * `SourceFile.shape`
-/

namespace FeSyntax

------------------------------------------------------------
-- Names, Literals And Comments
------------------------------------------------------------

/- The name with its span changed. -/
def Identifier.mapSpans
    (f : Span → Span)
    (i : Identifier) : Identifier :=
  ⟨i.name, f i.span⟩

/- The path with its spans changed. -/
def Path.mapSpans
    (f : Span → Span)
    (p : Path) : Path :=
  ⟨p.segments.map (Identifier.mapSpans f), f p.span⟩

/- The literal with its span changed. -/
def Literal.mapSpans
    (f : Span → Span)
    (l : Literal) : Literal :=
  ⟨l.value, f l.span⟩

/- The comment with its span changed. -/
def Comment.mapSpans
    (f : Span → Span)
    (c : Comment) : Comment :=
  ⟨c.text, f c.span⟩

------------------------------------------------------------
-- Types And Patterns
------------------------------------------------------------

namespace Ty

mutual

/- The type expression with its spans changed. -/
def mapSpans
    (f : Span → Span) : Ty → Ty
  | path p => path (p.mapSpans f)
  | reference isMut inner span =>
      reference isMut (inner.mapSpans f) (f span)
  | tuple elements span =>
      tuple (mapSpansAll f elements) (f span)
  | primitive kind span => primitive kind (f span)

/- The type expressions with their spans changed. -/
def mapSpansAll
    (f : Span → Span) : List Ty → List Ty
  | [] => []
  | ty :: tys => ty.mapSpans f :: mapSpansAll f tys

end

/- Spans are changed in each type of a list. -/
@[simp] theorem mapSpansAll_eq
    (f : Span → Span)
    (tys : List Ty) :
    mapSpansAll f tys = tys.map (mapSpans f) := by
  induction tys with
  | nil => rfl
  | cons ty tys ih => simp [mapSpansAll, ih]

end Ty

namespace Pattern

mutual

/- The pattern with its spans changed. -/
def mapSpans
    (f : Span → Span) : Pattern → Pattern
  | identifier name => identifier (name.mapSpans f)
  | literal l => literal (l.mapSpans f)
  | wildcard span => wildcard (f span)
  | tupleStruct path elements span =>
      tupleStruct (path.mapSpans f) (mapSpansAll f elements)
        (f span)

/- The patterns with their spans changed. -/
def mapSpansAll
    (f : Span → Span) : List Pattern → List Pattern
  | [] => []
  | p :: ps => p.mapSpans f :: mapSpansAll f ps

end

/- Spans are changed in each pattern of a list. -/
@[simp] theorem mapSpansAll_eq
    (f : Span → Span)
    (ps : List Pattern) :
    mapSpansAll f ps = ps.map (mapSpans f) := by
  induction ps with
  | nil => rfl
  | cons p ps ih => simp [mapSpansAll, ih]

end Pattern

------------------------------------------------------------
-- Expressions And Blocks
------------------------------------------------------------

mutual

/- The expression with its spans changed. -/
def Expression.mapSpans
    (f : Span → Span) : Expression → Expression
  | .literal l => .literal (l.mapSpans f)
  | .path p => .path (p.mapSpans f)
  | .block b => .block (b.mapSpans f)
  | .matching m => .matching (m.mapSpans f)

/- The block with its spans changed. -/
def Block.mapSpans
    (f : Span → Span) : Block → Block
  | ⟨statements, tail, span⟩ =>
      ⟨Block.mapStatementSpans f statements,
        Expression.mapOptionSpans f tail, f span⟩

/- The statement with its spans changed. -/
def Statement.mapSpans
    (f : Span → Span) : Statement → Statement
  | .binding b => .binding (b.mapSpans f)
  | .expression value span =>
      .expression (value.mapSpans f) (f span)

/- The `let` with its spans changed. -/
def LetBinding.mapSpans
    (f : Span → Span) : LetBinding → LetBinding
  | ⟨isMut, name, ty, value, span⟩ =>
      ⟨isMut, name.mapSpans f, ty.map (Ty.mapSpans f),
        Expression.mapOptionSpans f value, f span⟩

/- The `match` with its spans changed. -/
def Match.mapSpans
    (f : Span → Span) : Match → Match
  | ⟨value, arms, span⟩ =>
      ⟨value.mapSpans f, Match.mapArmSpans f arms, f span⟩

/- The arm with its spans changed. -/
def MatchArm.mapSpans
    (f : Span → Span) : MatchArm → MatchArm
  | ⟨pattern, value, span⟩ =>
      ⟨pattern.mapSpans f, value.mapSpans f, f span⟩

/- The statements with their spans changed. -/
def Block.mapStatementSpans
    (f : Span → Span) : List Statement → List Statement
  | [] => []
  | s :: ss => s.mapSpans f :: Block.mapStatementSpans f ss

/- The arms with their spans changed. -/
def Match.mapArmSpans
    (f : Span → Span) : List MatchArm → List MatchArm
  | [] => []
  | a :: as => a.mapSpans f :: Match.mapArmSpans f as

/- The optional expression with its spans changed. -/
def Expression.mapOptionSpans
    (f : Span → Span) :
    Option Expression → Option Expression
  | none => none
  | some e => some (e.mapSpans f)

end

/- Spans are changed in each statement of a list. -/
@[simp] theorem Block.mapStatementSpans_eq
    (f : Span → Span)
    (ss : List Statement) :
    mapStatementSpans f ss =
      ss.map (Statement.mapSpans f) := by
  induction ss with
  | nil => rfl
  | cons s ss ih => simp [mapStatementSpans, ih]

@[simp] theorem Match.mapArmSpans_eq
    (f : Span → Span)
    (arms : List MatchArm) :
    mapArmSpans f arms =
      arms.map (MatchArm.mapSpans f) := by
  induction arms with
  | nil => rfl
  | cons a arms ih => simp [mapArmSpans, ih]

/- Spans are changed in an expression if there is one. -/
@[simp] theorem Expression.mapOptionSpans_eq
    (f : Span → Span)
    (e : Option Expression) :
    mapOptionSpans f e = e.map (Expression.mapSpans f) := by
  cases e with
  | none => rfl
  | some e => rfl

------------------------------------------------------------
-- Definitions
------------------------------------------------------------

/- The parameter with its spans changed. -/
def Param.mapSpans
    (f : Span → Span)
    (p : Param) : Param :=
  ⟨p.name.mapSpans f, p.ty.mapSpans f, f p.span⟩

/- The field with its spans changed. -/
def Field.mapSpans
    (f : Span → Span)
    (d : Field) : Field :=
  ⟨d.isPub, d.name.mapSpans f, d.ty.mapSpans f, f d.span⟩

/- The function with its spans changed. -/
def Function.mapSpans
    (f : Span → Span)
    (d : Function) : Function :=
  { isPub := d.isPub
    name := d.name.mapSpans f
    typeParams := d.typeParams.map (Identifier.mapSpans f)
    params := d.params.map (Param.mapSpans f)
    returnType := d.returnType.map (Ty.mapSpans f)
    body := d.body.mapSpans f
    span := f d.span }

/- The struct with its spans changed. -/
def Struct.mapSpans
    (f : Span → Span)
    (d : Struct) : Struct :=
  { isPub := d.isPub
    name := d.name.mapSpans f
    typeParams := d.typeParams.map (Identifier.mapSpans f)
    fields := d.fields.map (List.map (Field.mapSpans f))
    span := f d.span }

/- The constant with its spans changed. -/
def Constant.mapSpans
    (f : Span → Span)
    (d : Constant) : Constant :=
  { isPub := d.isPub
    name := d.name.mapSpans f
    ty := d.ty.mapSpans f
    value := d.value.mapSpans f
    span := f d.span }

/- The type alias with its spans changed. -/
def TypeAlias.mapSpans
    (f : Span → Span)
    (d : TypeAlias) : TypeAlias :=
  { isPub := d.isPub
    name := d.name.mapSpans f
    typeParams := d.typeParams.map (Identifier.mapSpans f)
    ty := d.ty.mapSpans f
    span := f d.span }

/- The trait with its spans changed. -/
def Trait.mapSpans
    (f : Span → Span)
    (d : Trait) : Trait :=
  { isPub := d.isPub
    name := d.name.mapSpans f
    typeParams := d.typeParams.map (Identifier.mapSpans f)
    functions := d.functions.map (Function.mapSpans f)
    span := f d.span }

/- The impl with its spans changed. -/
def Impl.mapSpans
    (f : Span → Span)
    (d : Impl) : Impl :=
  { ty := d.ty.mapSpans f
    traitTy := d.traitTy.map (Ty.mapSpans f)
    functions := d.functions.map (Function.mapSpans f)
    span := f d.span }

mutual

/- The definition with its spans changed. -/
def Definition.mapSpans
    (f : Span → Span) : Definition → Definition
  | .module m => .module (m.mapSpans f)
  | .function d => .function (d.mapSpans f)
  | .struct d => .struct (d.mapSpans f)
  | .constant d => .constant (d.mapSpans f)
  | .typeAlias d => .typeAlias (d.mapSpans f)
  | .trait d => .trait (d.mapSpans f)
  | .impl d => .impl (d.mapSpans f)

/- The module with its spans changed. -/
def Module.mapSpans
    (f : Span → Span) : Module → Module
  | ⟨name, definitions, span⟩ =>
      ⟨name.mapSpans f,
        Module.mapDefinitionSpans f definitions, f span⟩

/- The definitions with their spans changed. -/
def Module.mapDefinitionSpans
    (f : Span → Span) : List Definition → List Definition
  | [] => []
  | d :: ds =>
      d.mapSpans f :: Module.mapDefinitionSpans f ds

end

/- Spans are changed in each definition of a list. -/
@[simp] theorem Module.mapDefinitionSpans_eq
    (f : Span → Span)
    (ds : List Definition) :
    mapDefinitionSpans f ds =
      ds.map (Definition.mapSpans f) := by
  induction ds with
  | nil => rfl
  | cons d ds ih => simp [mapDefinitionSpans, ih]

------------------------------------------------------------
-- Spans
------------------------------------------------------------

section Spans

variable (f : Span → Span)

/-
  The span of a name is changed like those inside a tree.
-/
@[simp] theorem Identifier.span_mapSpans
    (i : Identifier) :
    (i.mapSpans f).span = f i.span :=
  rfl

@[simp] theorem Path.span_mapSpans
    (p : Path) :
    (p.mapSpans f).span = f p.span :=
  rfl

/- So is the span of a type, whichever form it has. -/
@[simp] theorem Ty.span_mapSpans
    (ty : Ty) :
    (ty.mapSpans f).span = f ty.span := by
  cases ty <;> rfl

/- So is the span of a pattern, whichever form it has. -/
@[simp] theorem Pattern.span_mapSpans
    (p : Pattern) :
    (p.mapSpans f).span = f p.span := by
  cases p <;> rfl

@[simp] theorem Block.span_mapSpans
    (b : Block) :
    (b.mapSpans f).span = f b.span := by
  cases b
  rfl

/-
  So is the span of an expression, whichever form it has.
-/
@[simp] theorem Expression.span_mapSpans
    (e : Expression) :
    (e.mapSpans f).span = f e.span := by
  rcases e with l | p | ⟨_, _, _⟩ | ⟨_, _, _⟩ <;> rfl

end Spans

------------------------------------------------------------
-- Shapes
------------------------------------------------------------

/- Every span becomes the span that is at no place. -/
def Span.forget : Span → Span :=
  fun _ => ⟨0, 0, 0, 0⟩

/- The definitions of a file without spans and comments. -/
def SourceFile.shape
    (f : SourceFile) : SourceFile :=
  { definitions :=
      f.definitions.map (Definition.mapSpans .forget)
    comments := []
    span := f.span.forget }

end FeSyntax
