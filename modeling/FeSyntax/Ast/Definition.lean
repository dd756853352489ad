import FeSyntax.Ast.Expression

/-
  This file defines the definitions of a source file, and
  the source file itself, which is the root of the syntax
  tree.

  Key definitions include:
    * `Function`
    * `Struct`
    * `Constant`
    * `TypeAlias`
    * `Trait`
    * `Impl`
    * `Definition`
    * `Module`
    * `Definition.span`
    * `Definition.name?`
    * `Definition.nodeKind`
    * `SourceFile`
-/

namespace FeSyntax

------------------------------------------------------------
-- Functions
------------------------------------------------------------

/- A parameter of a function. -/
structure Param where
  name : Identifier
  ty : Ty
  span : Span

/- A function; `body` is its block. -/
structure Function where
  isPub : Bool
  name : Identifier
  typeParams : List Identifier
  params : List Param
  returnType : Option Ty
  body : Block
  span : Span

------------------------------------------------------------
-- Types, Constants And Traits
------------------------------------------------------------

/- A field of a struct. -/
structure Field where
  isPub : Bool
  name : Identifier
  ty : Ty
  span : Span

/- A struct; a unit struct has no list of fields. -/
structure Struct where
  isPub : Bool
  name : Identifier
  typeParams : List Identifier
  fields : Option (List Field)
  span : Span

/- A constant. -/
structure Constant where
  isPub : Bool
  name : Identifier
  ty : Ty
  value : Expression
  span : Span

/- A name for a type expression. -/
structure TypeAlias where
  isPub : Bool
  name : Identifier
  typeParams : List Identifier
  ty : Ty
  span : Span

/- A trait with its functions. -/
structure Trait where
  isPub : Bool
  name : Identifier
  typeParams : List Identifier
  functions : List Function
  span : Span

/- The functions of a type, possibly for a trait. -/
structure Impl where
  ty : Ty
  traitTy : Option Ty
  functions : List Function
  span : Span

------------------------------------------------------------
-- Definitions
------------------------------------------------------------

mutual

/- A definition of a source file or a module. -/
inductive Definition where
  | module (module : Module)
  | function (function : Function)
  | struct (struct : Struct)
  | constant (constant : Constant)
  | typeAlias (definition : TypeAlias)
  | trait (trait : Trait)
  | impl (impl : Impl)

/- A named group of definitions. -/
structure Module where
  name : Identifier
  definitions : List Definition
  span : Span

end

namespace Definition

/- The span of a definition. -/
def span : Definition → Span
  | module m => m.span
  | function f => f.span
  | struct s => s.span
  | constant c => c.span
  | typeAlias a => a.span
  | trait t => t.span
  | impl i => i.span

/- The name of a definition; an `impl` has none. -/
def name? : Definition → Option Identifier
  | module m => some m.name
  | function f => some f.name
  | struct s => some s.name
  | constant c => some c.name
  | typeAlias a => some a.name
  | trait t => some t.name
  | impl _ => none

/- The node of the syntax tree for a definition. -/
def nodeKind : Definition → NamedKind
  | module _ => .moduleDef
  | function _ => .functionDef
  | struct _ => .structDef
  | constant _ => .constDef
  | typeAlias _ => .typeDef
  | trait _ => .traitDef
  | impl _ => .implDef

end Definition

------------------------------------------------------------
-- Source Files
------------------------------------------------------------

/-
  A parsed source file.  Comments are not part of any
  definition and are kept in the order of the source.
-/
structure SourceFile where
  definitions : List Definition
  comments : List Comment
  span : Span

end FeSyntax
