import FeSyntax.Ast.Definition

/-
  This file defines outlines of syntax trees.  An outline is
  a tree of all nodes, of every sort, with the children of a
  node in the order of the source.  Walking through a syntax
  tree is listing the nodes of its outline.

  Key definitions include:
    * `Node`
    * `Node.sort`
    * `Node.span`
    * `Outline`
    * `Outline.walk`
    * `Outline.nodes`
    * `SourceFile.outline`
    * `SourceFile.nodes`
-/

namespace FeSyntax

------------------------------------------------------------
-- Nodes
------------------------------------------------------------

/- A node of a syntax tree. -/
inductive Node where
  | sourceFile (file : SourceFile)
  | definition (definition : Definition)
  | function (function : Function)
  | param (param : Param)
  | field (field : Field)
  | ty (ty : Ty)
  | block (block : Block)
  | statement (statement : Statement)
  | expression (expression : Expression)
  | matchArm (arm : MatchArm)
  | pattern (pattern : Pattern)
  | path (path : Path)
  | literal (literal : Literal)
  | identifier (name : Identifier)

namespace Node

/- The name of the sort of a node. -/
def sort : Node → String
  | sourceFile _ => "source_file"
  | definition _ => "definition"
  | function _ => "function"
  | param _ => "param"
  | field _ => "struct_field"
  | ty _ => "type"
  | block _ => "block"
  | statement _ => "statement"
  | expression _ => "expression"
  | matchArm _ => "match_arm"
  | pattern _ => "pattern"
  | path _ => "path"
  | literal _ => "literal"
  | identifier _ => "identifier"

/- The span of a node. -/
def span : Node → Span
  | sourceFile f => f.span
  | definition d => d.span
  | function f => f.span
  | param p => p.span
  | field f => f.span
  | ty t => t.span
  | block b => b.span
  | statement s => s.span
  | expression e => e.span
  | matchArm a => a.span
  | pattern p => p.span
  | path p => p.span
  | literal l => l.span
  | identifier i => i.span

/- The identifier that a node is. -/
def identifier? : Node → Option Identifier
  | identifier i => some i
  | _ => none

/- The literal that a node is. -/
def literal? : Node → Option Literal
  | literal l => some l
  | _ => none

/- The path that a node is. -/
def path? : Node → Option Path
  | path p => some p
  | _ => none

end Node

------------------------------------------------------------
-- Outlines
------------------------------------------------------------

/- A tree of nodes. -/
inductive Outline where
  | node (node : Node) (children : List Outline)

namespace Outline

/- A node without children. -/
def leaf
    (n : Node) : Outline :=
  node n []

mutual

/-
  The nodes of an outline, each before its children.  The
  children are left out where `descend` does not hold.
-/
def walk
    (descend : Node → Bool) : Outline → List Node
  | node n children =>
      if descend n then
        n :: walkAll descend children
      else
        [n]

/- The nodes of outlines in turn. -/
def walkAll
    (descend : Node → Bool) : List Outline → List Node
  | [] => []
  | o :: os => walk descend o ++ walkAll descend os

end

/- All nodes of an outline. -/
def nodes
    (o : Outline) : List Node :=
  o.walk (fun _ => true)

end Outline

------------------------------------------------------------
-- Names, Types And Patterns
------------------------------------------------------------

namespace Identifier

/- The outline of an identifier. -/
def outline
    (i : Identifier) : Outline :=
  .leaf (.identifier i)

end Identifier

namespace Path

/- The outline of a path. -/
def outline
    (p : Path) : Outline :=
  .node (.path p) (p.segments.map Identifier.outline)

end Path

namespace Literal

/- The outline of a literal. -/
def outline
    (l : Literal) : Outline :=
  .leaf (.literal l)

end Literal

namespace Ty

mutual

/- The outline of a type expression. -/
def outline : Ty → Outline
  | path p => .node (.ty (path p)) [p.outline]
  | reference isMut inner span =>
      .node (.ty (reference isMut inner span)) [inner.outline]
  | tuple elements span =>
      .node (.ty (tuple elements span)) (outlineAll elements)
  | primitive kind span =>
      .leaf (.ty (primitive kind span))

/- The outlines of type expressions. -/
def outlineAll : List Ty → List Outline
  | [] => []
  | ty :: tys => ty.outline :: outlineAll tys

end

end Ty

namespace Pattern

mutual

/- The outline of a pattern. -/
def outline : Pattern → Outline
  | identifier i =>
      .node (.pattern (identifier i)) [i.outline]
  | literal l => .node (.pattern (literal l)) [l.outline]
  | wildcard span => .leaf (.pattern (wildcard span))
  | tupleStruct path elements span =>
      .node (.pattern (tupleStruct path elements span))
        (path.outline :: outlineAll elements)

/- The outlines of patterns. -/
def outlineAll : List Pattern → List Outline
  | [] => []
  | p :: ps => p.outline :: outlineAll ps

end

end Pattern

------------------------------------------------------------
-- Expressions And Blocks
------------------------------------------------------------

mutual

/- The outline of an expression. -/
def Expression.outline : Expression → Outline
  | .literal l =>
      .node (.expression (.literal l)) [l.outline]
  | .path p => .node (.expression (.path p)) [p.outline]
  | .block b => .node (.expression (.block b)) [b.outline]
  | .matching m =>
      .node (.expression (.matching m)) m.outlineParts

/- The outline of a block. -/
def Block.outline : Block → Outline
  | ⟨statements, tail, span⟩ =>
      .node (.block ⟨statements, tail, span⟩)
        (Block.outlineStatements statements ++
          Expression.outlineOption tail)

/- The outline of a statement. -/
def Statement.outline : Statement → Outline
  | .binding b =>
      .node (.statement (.binding b)) b.outlineParts
  | .expression value span =>
      .node (.statement (.expression value span))
        [value.outline]

/- The outlines of the parts of a `let`. -/
def LetBinding.outlineParts : LetBinding → List Outline
  | ⟨_, name, ty, value, _⟩ =>
      name.outline ::
        ((ty.map Ty.outline).toList ++
          Expression.outlineOption value)

/- The outlines of the parts of a `match`. -/
def Match.outlineParts : Match → List Outline
  | ⟨value, arms, _⟩ =>
      value.outline :: Match.outlineArms arms

/- The outline of an arm. -/
def MatchArm.outline : MatchArm → Outline
  | ⟨pattern, value, span⟩ =>
      .node (.matchArm ⟨pattern, value, span⟩)
        [pattern.outline, value.outline]

/- The outlines of statements. -/
def Block.outlineStatements : List Statement → List Outline
  | [] => []
  | s :: ss => s.outline :: Block.outlineStatements ss

/- The outlines of arms. -/
def Match.outlineArms : List MatchArm → List Outline
  | [] => []
  | a :: as => a.outline :: Match.outlineArms as

/- The outline of an expression that may be left out. -/
def Expression.outlineOption :
    Option Expression → List Outline
  | none => []
  | some e => [e.outline]

end

------------------------------------------------------------
-- Definitions
------------------------------------------------------------

namespace Param

/- The outline of a parameter. -/
def outline
    (p : Param) : Outline :=
  .node (.param p) [p.name.outline, p.ty.outline]

end Param

namespace Field

/- The outline of a field. -/
def outline
    (f : Field) : Outline :=
  .node (.field f) [f.name.outline, f.ty.outline]

end Field

namespace Function

/- The outline of a function. -/
def outline
    (f : Function) : Outline :=
  .node (.function f)
    (f.name.outline ::
      (f.typeParams.map Identifier.outline ++
        f.params.map Param.outline ++
        (f.returnType.map Ty.outline).toList ++
        [f.body.outline]))

end Function

namespace Struct

/- The outlines of the parts of a struct. -/
def outlineParts
    (s : Struct) : List Outline :=
  s.name.outline ::
    (s.typeParams.map Identifier.outline ++
      (s.fields.getD []).map Field.outline)

end Struct

namespace Constant

/- The outlines of the parts of a constant. -/
def outlineParts
    (c : Constant) : List Outline :=
  [c.name.outline, c.ty.outline, c.value.outline]

end Constant

namespace TypeAlias

/- The outlines of the parts of a type alias. -/
def outlineParts
    (a : TypeAlias) : List Outline :=
  a.name.outline ::
    (a.typeParams.map Identifier.outline ++ [a.ty.outline])

end TypeAlias

namespace Trait

/- The outlines of the parts of a trait. -/
def outlineParts
    (t : Trait) : List Outline :=
  t.name.outline ::
    (t.typeParams.map Identifier.outline ++
      t.functions.map Function.outline)

end Trait

namespace Impl

/- The outlines of the parts of an impl. -/
def outlineParts
    (i : Impl) : List Outline :=
  i.ty.outline ::
    ((i.traitTy.map Ty.outline).toList ++
      i.functions.map Function.outline)

end Impl

mutual

/- The outline of a definition. -/
def Definition.outline : Definition → Outline
  | .module m =>
      .node (.definition (.module m)) m.outlineParts
  | .function f =>
      .node (.definition (.function f)) [f.outline]
  | .struct s =>
      .node (.definition (.struct s)) s.outlineParts
  | .constant c =>
      .node (.definition (.constant c)) c.outlineParts
  | .typeAlias a =>
      .node (.definition (.typeAlias a)) a.outlineParts
  | .trait t =>
      .node (.definition (.trait t)) t.outlineParts
  | .impl i => .node (.definition (.impl i)) i.outlineParts

/- The outlines of the parts of a module. -/
def Module.outlineParts : Module → List Outline
  | ⟨name, definitions, _⟩ =>
      name.outline :: Module.outlineDefinitions definitions

/- The outlines of definitions. -/
def Module.outlineDefinitions :
    List Definition → List Outline
  | [] => []
  | d :: ds => d.outline :: Module.outlineDefinitions ds

end

------------------------------------------------------------
-- Source Files
------------------------------------------------------------

namespace SourceFile

/- The outline of a source file. -/
def outline
    (f : SourceFile) : Outline :=
  .node (.sourceFile f)
    (Module.outlineDefinitions f.definitions)

/- All nodes of a source file. -/
def nodes
    (f : SourceFile) : List Node :=
  f.outline.nodes

end SourceFile

end FeSyntax
