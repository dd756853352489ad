import FeSyntax.Ast.Definition
import FeSyntax.Parse.Expression

/-
  This file defines the parsers of definitions and of whole
  files.  A definition takes one level of nesting, and so
  does a function inside a trait or an impl.

  Key definitions include:
    * `Parser.function`
    * `Parser.struct`
    * `Parser.constant`
    * `Parser.typeAlias`
    * `Parser.trait`
    * `Parser.impl`
    * `Parser.definition`
    * `Parser.definitions`
-/

namespace FeSyntax

namespace Parser

------------------------------------------------------------
-- Functions
------------------------------------------------------------

/- A parameter of a function. -/
def param
    (levels : Nat) : Parser Param := do
  let name ← identifier
  let _ ← punct .colon
  let ty ← ty levels
  pure ⟨name, ty, name.span.through ty.span⟩

/-
  A function behind its optional `pub`.  Its types and its
  body are parsed with `levels` levels.
-/
def function
    (levels : Nat)
    (visibility : Option Span) : Parser Function := do
  let start ← keyword .fnKw
  let name ← identifier
  let typeParams ← typeParams
  let _ ← punct .leftParen
  let (params, _) ← commaList .rightParen (param levels)
  let returnType ←
    whenAt (.punct .arrow) do
      let _ ← punct .arrow
      ty levels
  let body ← block levels
  pure
    { isPub := visibility.isSome
      name, typeParams, params, returnType, body
      span := (visibility.getD start).through body.span }

/- A function that takes a level of its own. -/
def nestedFunction
    (levels : Nat)
    (visibility : Option Span) : Parser Function :=
  match levels with
  | 0 => fail .tooDeep
  | n + 1 => function n visibility

/- A function of a trait or an impl. -/
def memberFunction
    (levels : Nat) : Parser Function := do
  let visibility ← keyword? .pubKw
  if ← isAt (.keyword .fnKw) then
    nestedFunction levels visibility
  else
    fail (.expected (.keyword .fnKw))

/- The functions of a trait or an impl, in braces. -/
def functionList
    (levels : Nat) : Parser (List Function × Span) := do
  let _ ← punct .leftBrace
  itemsUntil .rightBrace (memberFunction levels)

------------------------------------------------------------
-- Structs
------------------------------------------------------------

/-
  A field of a struct.  The word `pub` is never the name of
  a field that is not public.
-/
def field
    (levels : Nat) : Parser Field := do
  let visibility ← keyword? .pubKw
  let name ← identifier
  let _ ← punct .colon
  let ty ← ty levels
  let start := visibility.getD name.span
  pure ⟨visibility.isSome, name, ty, start.through ty.span⟩

/-
  What follows the name of a struct: a semicolon, or fields
  in braces.
-/
def structBody
    (levels : Nat) :
    Parser (Option (List Field) × Span) := do
  match ← peek with
  | some (.punct .semicolon) =>
      let stop ← punct .semicolon
      pure (none, stop)
  | some (.punct .leftBrace) =>
      let _ ← punct .leftBrace
      let (fields, stop) ←
        commaList .rightBrace (field levels)
      pure (some fields, stop)
  | _ => fail (.expected .structBody)

/- A struct behind its optional `pub`. -/
def struct
    (levels : Nat)
    (visibility : Option Span) : Parser Struct := do
  let start ← keyword .structKw
  let name ← identifier
  let typeParams ← typeParams
  let (fields, stop) ← structBody levels
  pure
    { isPub := visibility.isSome
      name, typeParams, fields
      span := (visibility.getD start).through stop }

------------------------------------------------------------
-- Constants And Type Aliases
------------------------------------------------------------

/- A constant behind its optional `pub`. -/
def constant
    (levels : Nat)
    (visibility : Option Span) : Parser Constant := do
  let start ← keyword .constKw
  let name ← identifier
  let _ ← punct .colon
  let ty ← ty levels
  let _ ← punct .equals
  let value ← expression levels
  let stop ← punct .semicolon
  pure
    { isPub := visibility.isSome
      name, ty, value
      span := (visibility.getD start).through stop }

/- A type alias behind its optional `pub`. -/
def typeAlias
    (levels : Nat)
    (visibility : Option Span) : Parser TypeAlias := do
  let start ← keyword .typeKw
  let name ← identifier
  let typeParams ← typeParams
  let _ ← punct .equals
  let ty ← ty levels
  let stop ← punct .semicolon
  pure
    { isPub := visibility.isSome
      name, typeParams, ty
      span := (visibility.getD start).through stop }

------------------------------------------------------------
-- Traits And Impls
------------------------------------------------------------

/- A trait behind its optional `pub`. -/
def trait
    (levels : Nat)
    (visibility : Option Span) : Parser Trait := do
  let start ← keyword .traitKw
  let name ← identifier
  let typeParams ← typeParams
  let (functions, stop) ← functionList levels
  pure
    { isPub := visibility.isSome
      name, typeParams, functions
      span := (visibility.getD start).through stop }

/- The functions of a type, possibly for a trait. -/
def impl
    (levels : Nat) : Parser Impl := do
  let start ← keyword .implKw
  let implTy ← ty levels
  let traitTy ←
    whenAt (.keyword .forKw) do
      let _ ← keyword .forKw
      ty levels
  let (functions, stop) ← functionList levels
  pure ⟨implTy, traitTy, functions, start.through stop⟩

------------------------------------------------------------
-- Modules And Definitions
------------------------------------------------------------

/-
  A module.  The text must not end before the closing brace;
  only that is asked for there.
-/
def moduleOf
    (inner : Parser Definition) : Parser Module := do
  let start ← keyword .modKw
  let name ← identifier
  let _ ← punct .leftBrace
  let (definitions, stop) ←
    itemsUntil .rightBrace do
      match ← peek with
      | some _ => inner
      | none => fail (.expected (.punct .rightBrace))
  pure ⟨name, definitions, start.through stop⟩

/-
  A definition whose parts are parsed with `levels` levels,
  and the definitions of a module by `inner`.  A module or
  an impl cannot be public.
-/
def definitionOf
    (levels : Nat)
    (inner : Parser Definition) : Parser Definition := do
  let visibility ← keyword? .pubKw
  match visibility, ← peek with
  | none, some (.keyword .modKw) =>
      .module <$> moduleOf inner
  | none, some (.keyword .implKw) =>
      .impl <$> impl levels
  | _, some (.keyword .fnKw) =>
      .function <$> function levels visibility
  | _, some (.keyword .traitKw) =>
      .trait <$> trait levels visibility
  | _, some (.keyword .structKw) =>
      .struct <$> struct levels visibility
  | _, some (.keyword .constKw) =>
      .constant <$> constant levels visibility
  | _, some (.keyword .typeKw) =>
      .typeAlias <$> typeAlias levels visibility
  | some _, _ => fail (.expected .publicDefinition)
  | none, _ => fail (.expected .definition)

/- A definition of at most `levels` nested levels. -/
def definition
    (levels : Nat) : Parser Definition :=
  match levels with
  | 0 => fail .tooDeep
  | n + 1 => definitionOf n (definition n)

/- The definitions up to the end of the text. -/
def definitions
    (levels : Nat) : Parser (List Definition) := do
  let (definitions, _) ←
    collect .definition do
      match ← peek with
      | some _ => .inl <$> definition levels
      | none => pure (.inr ())
  pure definitions

end Parser

end FeSyntax
