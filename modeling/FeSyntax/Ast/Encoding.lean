import FeSyntax.Ast.Definition
import FeSyntax.Json.Basic

/-
  This file defines the JSON form of the syntax tree.  A
  node is an object with its fields in a fixed order.  Where
  a node can be of several sorts, a tag that names the sort
  comes first, and the fields of the sort follow it.

  Key definitions include:
    * `Span.encode`
    * `Ty.encode`
    * `Pattern.encode`
    * `Expression.encode`
    * `Definition.encode`
    * `SourceFile.encode`
-/

namespace FeSyntax

------------------------------------------------------------
-- Fields
------------------------------------------------------------

/- The fields of a node, in the order they are written. -/
abbrev JsonFields : Type :=
  List (String × Json)

namespace Span

/- The fields of a span. -/
def jsonFields
    (s : Span) : JsonFields :=
  [ ("start", .ofNat s.start),
    ("end", .ofNat s.stop),
    ("line", .ofNat s.line),
    ("column", .ofNat s.column) ]

/- The JSON form of a span. -/
def encode
    (s : Span) : Json :=
  .record s.jsonFields

end Span

------------------------------------------------------------
-- Names And Literals
------------------------------------------------------------

namespace Identifier

/- The fields of an identifier. -/
def jsonFields
    (i : Identifier) : JsonFields :=
  [("name", .ofText i.name), ("span", i.span.encode)]

/- The JSON form of an identifier. -/
def encode
    (i : Identifier) : Json :=
  .record i.jsonFields

/- The JSON form of names in a row. -/
def encodeAll
    (names : List Identifier) : Json :=
  .array (names.map encode)

end Identifier

namespace Path

/- The fields of a path. -/
def jsonFields
    (p : Path) : JsonFields :=
  [ ("segments", Identifier.encodeAll p.segments),
    ("span", p.span.encode) ]

/- The JSON form of a path. -/
def encode
    (p : Path) : Json :=
  .record p.jsonFields

end Path

namespace LiteralValue

/- The JSON form of a suffix that may be absent. -/
def encodeSuffix
    (suffix : Option IntSuffix) : Json :=
  .ofOption (suffix.map (fun s => .ofText s.spelling))

/- The JSON form of a value, under the name of its sort. -/
def encode : LiteralValue → Json
  | number value suffix =>
      .record
        [ ( "number",
            .record
              [ ("value", .ofOption (value.map .ofNat)),
                ("suffix", encodeSuffix suffix) ] ) ]
  | bool b => .record [("bool", .bool b)]
  | string s => .record [("string", .ofText s)]

end LiteralValue

namespace Literal

/- The fields of a literal. -/
def jsonFields
    (l : Literal) : JsonFields :=
  [("value", l.value.encode), ("span", l.span.encode)]

end Literal

namespace Comment

/- The JSON form of a comment. -/
def encode
    (c : Comment) : Json :=
  .record [("text", .ofText c.text), ("span", c.span.encode)]

end Comment

------------------------------------------------------------
-- Types And Patterns
------------------------------------------------------------

namespace Ty

/- The tag of a sort of type expression. -/
def tag
    (sort : String) : String × Json :=
  ("type", .ofText sort)

mutual

/- The JSON form of a type expression. -/
def encode : Ty → Json
  | path p => .record (tag "path" :: p.jsonFields)
  | reference isMut inner span =>
      .record
        [ tag "reference",
          ("is_mut", .bool isMut),
          ("inner", inner.encode),
          ("span", span.encode) ]
  | primitive kind span =>
      .record
        [ tag "primitive",
          ("kind", .ofText kind.spelling),
          ("span", span.encode) ]
  | tuple elements span =>
      .record
        [ tag "tuple",
          ("elements", .array (encodeAll elements)),
          ("span", span.encode) ]

/- The JSON forms of type expressions. -/
def encodeAll : List Ty → List Json
  | [] => []
  | ty :: tys => ty.encode :: encodeAll tys

end

end Ty

namespace Pattern

/- The tag of a sort of pattern. -/
def tag
    (sort : String) : String × Json :=
  ("pattern", .ofText sort)

mutual

/- The JSON form of a pattern. -/
def encode : Pattern → Json
  | identifier name =>
      .record (tag "identifier" :: name.jsonFields)
  | literal l => .record (tag "literal" :: l.jsonFields)
  | wildcard span => .record (tag "wildcard" :: span.jsonFields)
  | tupleStruct path elements span =>
      .record
        [ tag "tuple_struct",
          ("path", path.encode),
          ("elements", .array (encodeAll elements)),
          ("span", span.encode) ]

/- The JSON forms of patterns. -/
def encodeAll : List Pattern → List Json
  | [] => []
  | p :: ps => p.encode :: encodeAll ps

end

end Pattern

------------------------------------------------------------
-- Expressions And Blocks
------------------------------------------------------------

/- The tag of a sort of expression. -/
def Expression.tag
    (sort : String) : String × Json :=
  ("expression", .ofText sort)

/- The tag of a sort of statement. -/
def Statement.tag
    (sort : String) : String × Json :=
  ("statement", .ofText sort)

mutual

/- The JSON form of an expression. -/
def Expression.encode : Expression → Json
  | .literal l =>
      .record (Expression.tag "literal" :: l.jsonFields)
  | .path p => .record (Expression.tag "path" :: p.jsonFields)
  | .block b => .record (Expression.tag "block" :: b.jsonFields)
  | .matching m =>
      .record (Expression.tag "match" :: m.jsonFields)

/- The fields of a block. -/
def Block.jsonFields : Block → JsonFields
  | ⟨statements, tail, span⟩ =>
      [ ("statements",
          .array (Block.encodeStatements statements)),
        ("tail", Expression.encodeOption tail),
        ("span", span.encode) ]

/- The JSON form of a statement. -/
def Statement.encode : Statement → Json
  | .binding b => .record (Statement.tag "let" :: b.jsonFields)
  | .expression value span =>
      .record
        [ Statement.tag "expression",
          ("expr", value.encode),
          ("span", span.encode) ]

/- The fields of a `let`. -/
def LetBinding.jsonFields : LetBinding → JsonFields
  | ⟨isMut, name, ty, value, span⟩ =>
      [ ("is_mut", .bool isMut),
        ("name", name.encode),
        ("ty", .ofOption (ty.map Ty.encode)),
        ("value", Expression.encodeOption value),
        ("span", span.encode) ]

/- The fields of a `match`. -/
def Match.jsonFields : Match → JsonFields
  | ⟨value, arms, span⟩ =>
      [ ("value", value.encode),
        ("arms", .array (Match.encodeArms arms)),
        ("span", span.encode) ]

/- The JSON form of an arm. -/
def MatchArm.encode : MatchArm → Json
  | ⟨pattern, value, span⟩ =>
      .record
        [ ("pattern", pattern.encode),
          ("value", value.encode),
          ("span", span.encode) ]

/- The JSON forms of statements. -/
def Block.encodeStatements : List Statement → List Json
  | [] => []
  | s :: ss => s.encode :: Block.encodeStatements ss

/- The JSON forms of arms. -/
def Match.encodeArms : List MatchArm → List Json
  | [] => []
  | a :: as => a.encode :: Match.encodeArms as

/- The JSON form of an expression that may be absent. -/
def Expression.encodeOption : Option Expression → Json
  | none => .null
  | some e => e.encode

end

namespace Block

/- The JSON form of a block that is no expression. -/
def encode
    (b : Block) : Json :=
  .record b.jsonFields

end Block

------------------------------------------------------------
-- Definitions
------------------------------------------------------------

namespace Param

/- The JSON form of a parameter. -/
def encode
    (p : Param) : Json :=
  .record
    [ ("name", p.name.encode),
      ("ty", p.ty.encode),
      ("span", p.span.encode) ]

end Param

namespace Function

/- The fields of a function. -/
def jsonFields
    (f : Function) : JsonFields :=
  [ ("is_pub", .bool f.isPub),
    ("name", f.name.encode),
    ("type_params", Identifier.encodeAll f.typeParams),
    ("params", .array (f.params.map Param.encode)),
    ("return_type",
      .ofOption (f.returnType.map Ty.encode)),
    ("body", f.body.encode),
    ("span", f.span.encode) ]

/- The JSON form of functions in a row. -/
def encodeAll
    (fs : List Function) : Json :=
  .array (fs.map (fun f => .record f.jsonFields))

end Function

namespace Field

/- The JSON form of a field. -/
def encode
    (f : Field) : Json :=
  .record
    [ ("is_pub", .bool f.isPub),
      ("name", f.name.encode),
      ("ty", f.ty.encode),
      ("span", f.span.encode) ]

end Field

namespace Struct

/- The fields of a struct. -/
def jsonFields
    (s : Struct) : JsonFields :=
  [ ("is_pub", .bool s.isPub),
    ("name", s.name.encode),
    ("type_params", Identifier.encodeAll s.typeParams),
    ("fields",
      .ofOption
        (s.fields.map
          (fun fs => .array (fs.map Field.encode)))),
    ("span", s.span.encode) ]

end Struct

namespace Constant

/- The fields of a constant. -/
def jsonFields
    (c : Constant) : JsonFields :=
  [ ("is_pub", .bool c.isPub),
    ("name", c.name.encode),
    ("ty", c.ty.encode),
    ("value", c.value.encode),
    ("span", c.span.encode) ]

end Constant

namespace TypeAlias

/- The fields of a type alias. -/
def jsonFields
    (a : TypeAlias) : JsonFields :=
  [ ("is_pub", .bool a.isPub),
    ("name", a.name.encode),
    ("type_params", Identifier.encodeAll a.typeParams),
    ("ty", a.ty.encode),
    ("span", a.span.encode) ]

end TypeAlias

namespace Trait

/- The fields of a trait. -/
def jsonFields
    (t : Trait) : JsonFields :=
  [ ("is_pub", .bool t.isPub),
    ("name", t.name.encode),
    ("type_params", Identifier.encodeAll t.typeParams),
    ("functions", Function.encodeAll t.functions),
    ("span", t.span.encode) ]

end Trait

namespace Impl

/- The fields of an impl. -/
def jsonFields
    (i : Impl) : JsonFields :=
  [ ("ty", i.ty.encode),
    ("trait_ty", .ofOption (i.traitTy.map Ty.encode)),
    ("functions", Function.encodeAll i.functions),
    ("span", i.span.encode) ]

end Impl

/- The tag of a sort of definition. -/
def Definition.tag
    (sort : String) : String × Json :=
  ("definition", .ofText sort)

mutual

/- The JSON form of a definition. -/
def Definition.encode : Definition → Json
  | .module m =>
      .record (Definition.tag "module" :: m.jsonFields)
  | .function f =>
      .record (Definition.tag "function" :: f.jsonFields)
  | .struct s =>
      .record (Definition.tag "struct" :: s.jsonFields)
  | .constant c =>
      .record (Definition.tag "const" :: c.jsonFields)
  | .typeAlias a =>
      .record (Definition.tag "type_alias" :: a.jsonFields)
  | .trait t => .record (Definition.tag "trait" :: t.jsonFields)
  | .impl i => .record (Definition.tag "impl" :: i.jsonFields)

/- The fields of a module. -/
def Module.jsonFields : Module → JsonFields
  | ⟨name, definitions, span⟩ =>
      [ ("name", name.encode),
        ("definitions",
          .array (Module.encodeDefinitions definitions)),
        ("span", span.encode) ]

/- The JSON forms of definitions. -/
def Module.encodeDefinitions : List Definition → List Json
  | [] => []
  | d :: ds => d.encode :: Module.encodeDefinitions ds

end

------------------------------------------------------------
-- Source Files
------------------------------------------------------------

namespace SourceFile

/- The JSON form of a source file. -/
def encode
    (f : SourceFile) : Json :=
  .record
    [ ("definitions",
        .array (Module.encodeDefinitions f.definitions)),
      ("comments", .array (f.comments.map Comment.encode)),
      ("span", f.span.encode) ]

end SourceFile

end FeSyntax
