import FeSyntax.Ast.Definition
import FeSyntax.Token.Kind

/-
  This file defines the trees in which the keyword wins.
  Every word is a name where the grammar asks for a name.
  Where a word can also be read as a keyword, the grammar
  reads the keyword, so some trees have spellings that stand
  for another tree or for none.  The definitions below leave
  those trees out, and paths without segments with them.

  Key definitions include:
    * `Path.BeginsWith`
    * `Ty.KeywordWins`
    * `Pattern.KeywordWins`
    * `Expression.KeywordWins`
    * `Definition.KeywordWins`
    * `SourceFile.KeywordWins`
-/

namespace FeSyntax

------------------------------------------------------------
-- First Words
------------------------------------------------------------

/- The first segment of a path is a given word. -/
def Path.BeginsWith
    (p : Path)
    (word : String) : Prop :=
  p.root?.map Identifier.name = some word

/- A path begins with the word that is its first segment. -/
@[simp] theorem Path.beginsWith_cons
    {first : Identifier}
    {more : List Identifier}
    {span : Span}
    {word : String} :
    Path.BeginsWith ⟨first :: more, span⟩ word ↔
      first.name = word := by
  simp [BeginsWith, root?]

/- A type expression is a path that begins with a word. -/
def Ty.BeginsWith : Ty → String → Prop
  | path p, word => p.BeginsWith word
  | reference _ _ _, _ => False
  | tuple _ _, _ => False
  | primitive _ _, _ => False

/- An expression is a path that begins with a word. -/
def Expression.BeginsWith : Expression → String → Prop
  | path p, word => p.BeginsWith word
  | literal _, _ => False
  | block _, _ => False
  | matching _, _ => False

------------------------------------------------------------
-- Types And Patterns
------------------------------------------------------------

namespace Path

/- A path that stands for a type expression. -/
structure IsTypePath
    (p : Path) : Prop where
  segments_ne_nil : p.segments ≠ []
  not_primitive :
    ∀ kind : Primitive, ¬ p.BeginsWith kind.spelling

/- A path that stands for an expression. -/
structure IsExpressionPath
    (p : Path) : Prop where
  segments_ne_nil : p.segments ≠ []
  not_bool :
    ∀ b : Bool, ¬ p.BeginsWith (TokenKind.boolSpelling b)
  not_match : ¬ p.BeginsWith Keyword.matchKw.spelling

/- A path that stands at the start of a pattern. -/
structure IsPatternPath
    (p : Path) : Prop where
  segments_ne_nil : p.segments ≠ []
  not_bool :
    ∀ b : Bool, ¬ p.BeginsWith (TokenKind.boolSpelling b)
  not_wildcard : ¬ p.BeginsWith Keyword.underscore.spelling

end Path

/-
  Primitive types win over paths, and `mut` behind `&` over
  the name of a type.
-/
inductive Ty.KeywordWins : Ty → Prop where
  | path
      {p : Path}
      (hPath : p.IsTypePath) :
      KeywordWins (.path p)
  | reference
      {isMut : Bool}
      {inner : Ty}
      {span : Span}
      (hMut :
        isMut = false →
          ¬ inner.BeginsWith Keyword.mutKw.spelling)
      (hInner : inner.KeywordWins) :
      KeywordWins (.reference isMut inner span)
  | tuple
      {elements : List Ty}
      {span : Span}
      (hElements : ∀ ty ∈ elements, ty.KeywordWins) :
      KeywordWins (.tuple elements span)
  | primitive
      {kind : Primitive}
      {span : Span} :
      KeywordWins (.primitive kind span)

/- Truth values and the wildcard win over names. -/
inductive Pattern.KeywordWins : Pattern → Prop where
  | identifier
      {name : Identifier}
      (hName : Path.IsPatternPath ⟨[name], name.span⟩) :
      KeywordWins (.identifier name)
  | literal
      {l : Literal} :
      KeywordWins (.literal l)
  | wildcard
      {span : Span} :
      KeywordWins (.wildcard span)
  | tupleStruct
      {path : Path}
      {elements : List Pattern}
      {span : Span}
      (hPath : path.IsPatternPath)
      (hElements : ∀ p ∈ elements, p.KeywordWins) :
      KeywordWins (.tupleStruct path elements span)

------------------------------------------------------------
-- Expressions And Blocks
------------------------------------------------------------

mutual

/- Truth values and `match` win over paths. -/
inductive Expression.KeywordWins : Expression → Prop where
  | literal
      {l : Literal} :
      Expression.KeywordWins (.literal l)
  | path
      {p : Path}
      (hPath : p.IsExpressionPath) :
      Expression.KeywordWins (.path p)
  | block
      {b : Block}
      (hBlock : b.KeywordWins) :
      Expression.KeywordWins (.block b)
  | matching
      {m : Match}
      (hMatch : m.KeywordWins) :
      Expression.KeywordWins (.matching m)

/- `let` wins over a path at the end of a block. -/
inductive Block.KeywordWins : Block → Prop where
  | mk
      {statements : List Statement}
      {tail : Option Expression}
      {span : Span}
      (hStatements : ∀ s ∈ statements, s.KeywordWins)
      (hTail : ∀ e ∈ tail, e.KeywordWins)
      (hLet :
        ∀ e ∈ tail, ¬ e.BeginsWith Keyword.letKw.spelling) :
      Block.KeywordWins ⟨statements, tail, span⟩

/- `let` wins over a path at the start of a statement. -/
inductive Statement.KeywordWins : Statement → Prop where
  | binding
      {b : LetBinding}
      (hBinding : b.KeywordWins) :
      Statement.KeywordWins (.binding b)
  | expression
      {value : Expression}
      {span : Span}
      (hValue : value.KeywordWins)
      (hLet : ¬ value.BeginsWith Keyword.letKw.spelling) :
      Statement.KeywordWins (.expression value span)

/- `mut` behind `let` wins over the name. -/
inductive LetBinding.KeywordWins : LetBinding → Prop where
  | mk
      {isMut : Bool}
      {name : Identifier}
      {ty : Option Ty}
      {value : Option Expression}
      {span : Span}
      (hMut :
        isMut = false → name.name ≠ Keyword.mutKw.spelling)
      (hTy : ∀ t ∈ ty, t.KeywordWins)
      (hValue : ∀ e ∈ value, e.KeywordWins) :
      LetBinding.KeywordWins ⟨isMut, name, ty, value, span⟩

/- The keyword wins in the value and in every arm. -/
inductive Match.KeywordWins : Match → Prop where
  | mk
      {value : Expression}
      {arms : List MatchArm}
      {span : Span}
      (hValue : value.KeywordWins)
      (hArms : ∀ a ∈ arms, a.KeywordWins) :
      Match.KeywordWins ⟨value, arms, span⟩

/- The keyword wins in the pattern and in the value. -/
inductive MatchArm.KeywordWins : MatchArm → Prop where
  | mk
      {pattern : Pattern}
      {value : Expression}
      {span : Span}
      (hPattern : pattern.KeywordWins)
      (hValue : value.KeywordWins) :
      MatchArm.KeywordWins ⟨pattern, value, span⟩

end

------------------------------------------------------------
-- Definitions
------------------------------------------------------------

/- `pub` wins over the name of a field. -/
structure Field.KeywordWins
    (f : Field) : Prop where
  not_pub :
    f.isPub = false → f.name.name ≠ Keyword.pubKw.spelling
  ty : f.ty.KeywordWins

/- The keyword wins in all types and in the body. -/
structure Function.KeywordWins
    (f : Function) : Prop where
  params : ∀ p ∈ f.params, p.ty.KeywordWins
  returnType : ∀ t ∈ f.returnType, t.KeywordWins
  body : f.body.KeywordWins

/- The keyword wins in every field, if there are any. -/
def Struct.KeywordWins
    (s : Struct) : Prop :=
  ∀ fields ∈ s.fields, ∀ f ∈ fields, f.KeywordWins

/- The keyword wins in the type and in the value. -/
structure Constant.KeywordWins
    (c : Constant) : Prop where
  ty : c.ty.KeywordWins
  value : c.value.KeywordWins

/- The keyword wins in both types and in every function. -/
structure Impl.KeywordWins
    (i : Impl) : Prop where
  ty : i.ty.KeywordWins
  traitTy : ∀ t ∈ i.traitTy, t.KeywordWins
  functions : ∀ f ∈ i.functions, f.KeywordWins

mutual

/- The keyword wins in every part of a definition. -/
inductive Definition.KeywordWins : Definition → Prop where
  | module
      {m : Module}
      (hModule : m.KeywordWins) :
      Definition.KeywordWins (.module m)
  | function
      {f : Function}
      (hFunction : f.KeywordWins) :
      Definition.KeywordWins (.function f)
  | struct
      {s : Struct}
      (hStruct : s.KeywordWins) :
      Definition.KeywordWins (.struct s)
  | constant
      {c : Constant}
      (hConstant : c.KeywordWins) :
      Definition.KeywordWins (.constant c)
  | typeAlias
      {a : TypeAlias}
      (hTy : a.ty.KeywordWins) :
      Definition.KeywordWins (.typeAlias a)
  | trait
      {t : Trait}
      (hFunctions : ∀ f ∈ t.functions, f.KeywordWins) :
      Definition.KeywordWins (.trait t)
  | impl
      {i : Impl}
      (hImpl : i.KeywordWins) :
      Definition.KeywordWins (.impl i)

/- The keyword wins in every definition of a module. -/
inductive Module.KeywordWins : Module → Prop where
  | mk
      {name : Identifier}
      {definitions : List Definition}
      {span : Span}
      (hDefinitions : ∀ d ∈ definitions, d.KeywordWins) :
      Module.KeywordWins ⟨name, definitions, span⟩

end

------------------------------------------------------------
-- Source Files
------------------------------------------------------------

/- The keyword wins in every definition of a file. -/
def SourceFile.KeywordWins
    (f : SourceFile) : Prop :=
  ∀ d ∈ f.definitions, d.KeywordWins

end FeSyntax
