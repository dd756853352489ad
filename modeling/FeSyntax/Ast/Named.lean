import FeSyntax.Ast.Definition
import FeSyntax.NamedTree

/-
  This file defines the named tree of a source file.  Types,
  expressions, statements and patterns have no node of their
  own: their parts stand in their places.  A pattern can
  have several parts or none, and hands its label to each.

  Key definitions include:
    * `Ty.named`
    * `Pattern.named`
    * `Expression.named`
    * `Block.named`
    * `Definition.named`
    * `SourceFile.named`
    * `SourceFile.sexp`
-/

namespace FeSyntax

------------------------------------------------------------
-- Names And Literals
------------------------------------------------------------

namespace Identifier

/- The node of a name that is not part of a path. -/
def named
    (_ : Identifier) : NamedTree :=
  .leaf (some .name) .identifier

/- The node of a name without a label. -/
def bare
    (_ : Identifier) : NamedTree :=
  .leaf none .identifier

/- The node of type parameters, if there are any. -/
def typeParamsNamed : List Identifier → List NamedTree
  | [] => []
  | names => [.node none .typeParams (names.map bare)]

end Identifier

namespace Path

/- The node of a path. -/
def named
    (field : Option FieldName)
    (p : Path) : NamedTree :=
  .node field .path (p.segments.map Identifier.bare)

end Path

namespace Literal

/- The node of a literal. -/
def named
    (field : Option FieldName)
    (l : Literal) : NamedTree :=
  .node field .literal [.leaf none l.value.nodeKind]

end Literal

------------------------------------------------------------
-- Types And Patterns
------------------------------------------------------------

namespace Ty

mutual

/- The node of a type expression. -/
def named
    (field : Option FieldName) : Ty → NamedTree
  | path p => p.named field
  | reference _ inner _ =>
      .node field .referenceType [inner.named none]
  | tuple elements _ =>
      .node field .tupleType (namedAll elements)
  | primitive _ _ => .leaf field .primitiveType

/- The nodes of type expressions without labels. -/
def namedAll : List Ty → List NamedTree
  | [] => []
  | ty :: tys => ty.named none :: namedAll tys

end

end Ty

namespace Pattern

mutual

/- The nodes of a pattern; a wildcard has none. -/
def named
    (field : Option FieldName) : Pattern → List NamedTree
  | identifier _ => [.leaf field .identifier]
  | literal l => [l.named field]
  | wildcard _ => []
  | tupleStruct path elements _ =>
      path.named field :: namedAll field elements

/- The nodes of patterns in turn. -/
def namedAll
    (field : Option FieldName) :
    List Pattern → List NamedTree
  | [] => []
  | p :: ps => p.named field ++ namedAll field ps

end

end Pattern

------------------------------------------------------------
-- Expressions And Blocks
------------------------------------------------------------

mutual

/- The node of an expression. -/
def Expression.named
    (field : Option FieldName) : Expression → NamedTree
  | .literal l => l.named field
  | .path p => p.named field
  | .block b => b.named field
  | .matching m => m.named field

/- The node of a block. -/
def Block.named
    (field : Option FieldName) : Block → NamedTree
  | ⟨statements, tail, _⟩ =>
      .node field .blockExpr
        (Block.namedStatements statements ++
          Expression.namedOption none tail)

/- The node of a statement. -/
def Statement.named : Statement → NamedTree
  | .binding b => b.named
  | .expression value _ => value.named none

/- The node of a `let`. -/
def LetBinding.named : LetBinding → NamedTree
  | ⟨_, name, ty, value, _⟩ =>
      .node none .letStatement
        (name.named ::
          ((ty.map (Ty.named (some .type))).toList ++
            Expression.namedOption (some .value) value))

/- The node of a `match`. -/
def Match.named
    (field : Option FieldName) : Match → NamedTree
  | ⟨value, arms, _⟩ =>
      .node field .matchExpr
        (value.named (some .value) :: Match.namedArms arms)

/- The node of an arm. -/
def MatchArm.named : MatchArm → NamedTree
  | ⟨pattern, value, _⟩ =>
      .node none .matchArm
        (pattern.named (some .pattern) ++
          [value.named (some .value)])

/- The nodes of statements. -/
def Block.namedStatements :
    List Statement → List NamedTree
  | [] => []
  | s :: ss => s.named :: Block.namedStatements ss

/- The nodes of arms. -/
def Match.namedArms : List MatchArm → List NamedTree
  | [] => []
  | a :: as => a.named :: Match.namedArms as

/- The node of an expression that may be left out. -/
def Expression.namedOption
    (field : Option FieldName) :
    Option Expression → List NamedTree
  | none => []
  | some e => [e.named field]

end

------------------------------------------------------------
-- Definitions
------------------------------------------------------------

namespace Param

/- The node of a parameter. -/
def named
    (p : Param) : NamedTree :=
  .node none .param [p.name.named, p.ty.named (some .type)]

end Param

namespace Field

/- The node of a field. -/
def named
    (f : Field) : NamedTree :=
  .node none .structField
    [f.name.named, f.ty.named (some .type)]

end Field

namespace Function

/- The node of parameters, if there are any. -/
def paramsNamed : List Param → List NamedTree
  | [] => []
  | ps => [.node none .params (ps.map Param.named)]

/- The node of a function; its body is a block. -/
def named
    (f : Function) : NamedTree :=
  .node none .functionDef
    (f.name.named ::
      (Identifier.typeParamsNamed f.typeParams ++
        paramsNamed f.params ++
        (f.returnType.map
          (Ty.named (some .returnType))).toList ++
        [.node none .block [f.body.named none]]))

end Function

namespace Struct

/- The node of a struct; a unit struct shows no fields. -/
def named
    (s : Struct) : NamedTree :=
  .node none .structDef
    (s.name.named ::
      (Identifier.typeParamsNamed s.typeParams ++
        (s.fields.map fun fields =>
          .node none .structFields
            (fields.map Field.named)).toList))

end Struct

namespace Constant

/- The node of a constant; its value has no label. -/
def named
    (c : Constant) : NamedTree :=
  .node none .constDef
    [ c.name.named,
      c.ty.named (some .type),
      c.value.named none ]

end Constant

namespace TypeAlias

/- The node of a type alias. -/
def named
    (a : TypeAlias) : NamedTree :=
  .node none .typeDef
    (a.name.named ::
      (Identifier.typeParamsNamed a.typeParams ++
        [a.ty.named (some .type)]))

end TypeAlias

namespace Trait

/- The node of a trait. -/
def named
    (t : Trait) : NamedTree :=
  .node none .traitDef
    (t.name.named ::
      (Identifier.typeParamsNamed t.typeParams ++
        t.functions.map Function.named))

end Trait

namespace Impl

/- The node of an impl. -/
def named
    (i : Impl) : NamedTree :=
  .node none .implDef
    (i.ty.named (some .type) ::
      ((i.traitTy.map (Ty.named (some .trait))).toList ++
        i.functions.map Function.named))

end Impl

mutual

/- The node of a definition. -/
def Definition.named : Definition → NamedTree
  | .module m => m.named
  | .function f => f.named
  | .struct s => s.named
  | .constant c => c.named
  | .typeAlias a => a.named
  | .trait t => t.named
  | .impl i => i.named

/- The node of a module. -/
def Module.named : Module → NamedTree
  | ⟨name, definitions, _⟩ =>
      .node none .moduleDef
        (name.named :: Module.namedDefinitions definitions)

/- The nodes of definitions. -/
def Module.namedDefinitions :
    List Definition → List NamedTree
  | [] => []
  | d :: ds => d.named :: Module.namedDefinitions ds

end

------------------------------------------------------------
-- Source Files
------------------------------------------------------------

namespace SourceFile

/- The named tree of a file, which leaves comments out. -/
def named
    (f : SourceFile) : NamedTree :=
  .node none .sourceFile
    (Module.namedDefinitions f.definitions)

/- The S-expression of a file. -/
def sexp
    (f : SourceFile) : String :=
  f.named.render

end SourceFile

end FeSyntax
