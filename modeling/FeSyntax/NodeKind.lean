import FeSyntax.Token.Kind

/-
  This file defines the names that syntax trees are written
  with: the kinds of named nodes, the spellings of anonymous
  nodes, and the names of fields.

  Key definitions include:
    * `NamedKind`
    * `NamedKind.name`
    * `anonymousKinds`
    * `FieldName`
    * `FieldName.label`
-/

namespace FeSyntax

------------------------------------------------------------
-- Named Nodes
------------------------------------------------------------

/- The kinds of named nodes. -/
inductive NamedKind where
  | sourceFile
  | comment
  | identifier
  | path
  | moduleDef
  | traitDef
  | implDef
  | matchExpr
  | matchArm
  | functionDef
  | typeParams
  | params
  | param
  | primitiveType
  | referenceType
  | tupleType
  | structDef
  | structFields
  | structField
  | constDef
  | typeDef
  | literal
  | numberLiteral
  | booleanLiteral
  | stringLiteral
  | block
  | blockExpr
  | letStatement
deriving DecidableEq, Repr

namespace NamedKind

/- Every kind of named node, in table order. -/
def all : List NamedKind :=
  [ sourceFile, comment, identifier, path, moduleDef,
    traitDef, implDef, matchExpr, matchArm, functionDef,
    typeParams, params, param, primitiveType, referenceType,
    tupleType, structDef, structFields, structField,
    constDef, typeDef, literal, numberLiteral,
    booleanLiteral, stringLiteral, block, blockExpr,
    letStatement ]

/- How trees name a kind of node. -/
def name : NamedKind → String
  | sourceFile => "source_file"
  | comment => "comment"
  | identifier => "identifier"
  | path => "path"
  | moduleDef => "module_def"
  | traitDef => "trait_def"
  | implDef => "impl_def"
  | matchExpr => "match_expr"
  | matchArm => "match_arm"
  | functionDef => "function_def"
  | typeParams => "type_params"
  | params => "params"
  | param => "param"
  | primitiveType => "primitive_type"
  | referenceType => "reference_type"
  | tupleType => "tuple_type"
  | structDef => "struct_def"
  | structFields => "struct_fields"
  | structField => "struct_field"
  | constDef => "const_def"
  | typeDef => "type_def"
  | literal => "literal"
  | numberLiteral => "number_literal"
  | booleanLiteral => "boolean_literal"
  | stringLiteral => "string_literal"
  | block => "block"
  | blockExpr => "block_expr"
  | letStatement => "let_statement"

/- The list of named kinds leaves none out. -/
theorem mem_all
    (k : NamedKind) :
    k ∈ all := by
  cases k <;> decide

end NamedKind

------------------------------------------------------------
-- Anonymous Nodes
------------------------------------------------------------

/-
  The spellings of anonymous nodes, in table order: every
  reserved word, every punctuation mark, and the quote that
  encloses strings.
-/
def anonymousKinds : List String :=
  Keyword.all.map Keyword.spelling ++
    Primitive.all.map Primitive.spelling ++
    [true, false].map TokenKind.boolSpelling ++
    Punct.all.map Punct.spelling ++
    ["\""]

------------------------------------------------------------
-- Fields
------------------------------------------------------------

/- The fields that label the children of a node. -/
inductive FieldName where
  | name
  | pattern
  | returnType
  | trait
  | type
  | value
deriving DecidableEq, Repr

namespace FieldName

/- Every field, in table order. -/
def all : List FieldName :=
  [name, pattern, returnType, trait, type, value]

/- How trees write a field. -/
def label : FieldName → String
  | name => "name"
  | pattern => "pattern"
  | returnType => "return_type"
  | trait => "trait"
  | type => "type"
  | value => "value"

/- The list of fields leaves none out. -/
theorem mem_all
    (f : FieldName) :
    f ∈ all := by
  cases f <;> decide

end FieldName

end FeSyntax
