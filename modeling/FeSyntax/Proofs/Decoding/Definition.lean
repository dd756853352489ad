import FeSyntax.Proofs.Decoding.Expression

/-
  This file defines decoders for definitions, and proves
  that they give back what was encoded.  Modules contain
  definitions, so their decoder uses one for the definitions
  that are less deeply nested.

  Key definitions include:
    * `Function.decode?`
    * `Definition.jsonFields`
    * `Definition.decode?`

  Key theorems include:
    * `Definition.decode?_encode`
    * `Definition.encode_written`
-/

namespace FeSyntax

open Json (at? items? optional?)

------------------------------------------------------------
-- Functions
------------------------------------------------------------

namespace Param

/- The parameter that a document stands for. -/
def decode?
    (j : Json) : Option Param := do
  let name ← j.at? "name" Identifier.decode?
  let ty ← j.at? "ty" Ty.decode?
  let span ← j.at? "span" Span.decode?
  pure ⟨name, ty, span⟩

/- A parameter is what its own document is decoded to. -/
@[simp] theorem decode?_encode
    (p : Param) :
    decode? p.encode = some p := by
  have hFields : p.encode.HasFields _ :=
    Json.hasFields_record (by simp)
  simp only [Json.hasFields_cons] at hFields
  simp [decode?, at?, hFields]

/- The document of a parameter can be written. -/
@[simp] theorem encode_written
    (p : Param) :
    p.encode.IsWritten :=
  .record (by simp)

end Param

namespace Function

/- The function that a document stands for. -/
def decode?
    (j : Json) : Option Function := do
  let isPub ← j.at? "is_pub" Json.toBool?
  let name ← j.at? "name" Identifier.decode?
  let typeParams ←
    j.at? "type_params" (items? Identifier.decode?)
  let params ← j.at? "params" (items? Param.decode?)
  let returnType ←
    j.at? "return_type" (optional? Ty.decode?)
  let body ← j.at? "body" Block.decode?
  let span ← j.at? "span" Span.decode?
  pure
    ⟨ isPub, name, typeParams, params, returnType, body,
      span ⟩

/-
  The fields of a function lead back to it, with or without
  a return type.
-/
theorem decode?_of_hasFields
    {j : Json}
    {f : Function}
    (hFields : j.HasFields f.jsonFields) :
    decode? j = some f := by
  simp only [jsonFields, Json.hasFields_cons] at hFields
  simp [decode?, at?, hFields]

/- The fields of a function can be written. -/
theorem jsonFields_written
    (f : Function) :
    ∀ field ∈ f.jsonFields, field.2.IsWritten := by
  simp [jsonFields]

/- A list of functions is decoded item by item. -/
@[simp] theorem items?_encodeAll
    (fs : List Function) :
    items? decode? (encodeAll fs) = some fs := by
  apply Json.items?_array
  intro f _
  apply decode?_of_hasFields
  exact Json.hasFields_record (by simp [jsonFields])

/- The documents of functions in a list can be written. -/
@[simp] theorem encodeAll_written
    (fs : List Function) :
    (encodeAll fs).IsWritten :=
  Json.isWritten_array_map fun f _ =>
    .record f.jsonFields_written

end Function

------------------------------------------------------------
-- Types, Constants And Traits
------------------------------------------------------------

namespace Field

/- The field that a document stands for. -/
def decode?
    (j : Json) : Option Field := do
  let isPub ← j.at? "is_pub" Json.toBool?
  let name ← j.at? "name" Identifier.decode?
  let ty ← j.at? "ty" Ty.decode?
  let span ← j.at? "span" Span.decode?
  pure ⟨isPub, name, ty, span⟩

/- A field is what its own document is decoded to. -/
@[simp] theorem decode?_encode
    (f : Field) :
    decode? f.encode = some f := by
  have hFields : f.encode.HasFields _ :=
    Json.hasFields_record (by simp)
  simp only [Json.hasFields_cons] at hFields
  simp [decode?, at?, hFields]

@[simp] theorem encode_written
    (f : Field) :
    f.encode.IsWritten :=
  .record (by simp)

end Field

namespace Struct

/- The struct that a document stands for. -/
def decode?
    (j : Json) : Option Struct := do
  let isPub ← j.at? "is_pub" Json.toBool?
  let name ← j.at? "name" Identifier.decode?
  let typeParams ←
    j.at? "type_params" (items? Identifier.decode?)
  let fields ←
    j.at? "fields" (optional? (items? Field.decode?))
  let span ← j.at? "span" Span.decode?
  pure ⟨isPub, name, typeParams, fields, span⟩

theorem decode?_of_hasFields
    {j : Json}
    {s : Struct}
    (hFields : j.HasFields s.jsonFields) :
    decode? j = some s := by
  simp only [jsonFields, Json.hasFields_cons] at hFields
  simp [decode?, at?, hFields]

theorem jsonFields_written
    (s : Struct) :
    ∀ field ∈ s.jsonFields, field.2.IsWritten := by
  simp [jsonFields]

end Struct

namespace Constant

/- The constant that a document stands for. -/
def decode?
    (j : Json) : Option Constant := do
  let isPub ← j.at? "is_pub" Json.toBool?
  let name ← j.at? "name" Identifier.decode?
  let ty ← j.at? "ty" Ty.decode?
  let value ← j.at? "value" Expression.decode?
  let span ← j.at? "span" Span.decode?
  pure ⟨isPub, name, ty, value, span⟩

/- The fields of a constant lead back to it. -/
theorem decode?_of_hasFields
    {j : Json}
    {c : Constant}
    (hFields : j.HasFields c.jsonFields) :
    decode? j = some c := by
  simp only [jsonFields, Json.hasFields_cons] at hFields
  simp [decode?, at?, hFields]

/- The fields of a constant can be written. -/
theorem jsonFields_written
    (c : Constant) :
    ∀ field ∈ c.jsonFields, field.2.IsWritten := by
  simp [jsonFields]

end Constant

namespace TypeAlias

/- The type alias that a document stands for. -/
def decode?
    (j : Json) : Option TypeAlias := do
  let isPub ← j.at? "is_pub" Json.toBool?
  let name ← j.at? "name" Identifier.decode?
  let typeParams ←
    j.at? "type_params" (items? Identifier.decode?)
  let ty ← j.at? "ty" Ty.decode?
  let span ← j.at? "span" Span.decode?
  pure ⟨isPub, name, typeParams, ty, span⟩

/- The fields of a type alias lead back to it. -/
theorem decode?_of_hasFields
    {j : Json}
    {a : TypeAlias}
    (hFields : j.HasFields a.jsonFields) :
    decode? j = some a := by
  simp only [jsonFields, Json.hasFields_cons] at hFields
  simp [decode?, at?, hFields]

/- The fields of a type alias can be written. -/
theorem jsonFields_written
    (a : TypeAlias) :
    ∀ field ∈ a.jsonFields, field.2.IsWritten := by
  simp [jsonFields]

end TypeAlias

namespace Trait

/- The trait that a document stands for. -/
def decode?
    (j : Json) : Option Trait := do
  let isPub ← j.at? "is_pub" Json.toBool?
  let name ← j.at? "name" Identifier.decode?
  let typeParams ←
    j.at? "type_params" (items? Identifier.decode?)
  let functions ←
    j.at? "functions" (items? Function.decode?)
  let span ← j.at? "span" Span.decode?
  pure ⟨isPub, name, typeParams, functions, span⟩

/-
  The fields of a trait lead back to it, by way of its
  functions.
-/
theorem decode?_of_hasFields
    {j : Json}
    {t : Trait}
    (hFields : j.HasFields t.jsonFields) :
    decode? j = some t := by
  simp only [jsonFields, Json.hasFields_cons] at hFields
  simp [decode?, at?, hFields]

theorem jsonFields_written
    (t : Trait) :
    ∀ field ∈ t.jsonFields, field.2.IsWritten := by
  simp [jsonFields]

end Trait

namespace Impl

/- The impl that a document stands for. -/
def decode?
    (j : Json) : Option Impl := do
  let ty ← j.at? "ty" Ty.decode?
  let traitTy ← j.at? "trait_ty" (optional? Ty.decode?)
  let functions ←
    j.at? "functions" (items? Function.decode?)
  let span ← j.at? "span" Span.decode?
  pure ⟨ty, traitTy, functions, span⟩

/- The fields of an implementation lead back to it. -/
theorem decode?_of_hasFields
    {j : Json}
    {i : Impl}
    (hFields : j.HasFields i.jsonFields) :
    decode? j = some i := by
  simp only [jsonFields, Json.hasFields_cons] at hFields
  simp [decode?, at?, hFields]

/- The fields of an implementation can be written. -/
theorem jsonFields_written
    (i : Impl) :
    ∀ field ∈ i.jsonFields, field.2.IsWritten := by
  simp [jsonFields]

end Impl

------------------------------------------------------------
-- Definitions
------------------------------------------------------------

/- The fields of a definition, with its tag. -/
def Definition.jsonFields : Definition → JsonFields
  | .module m => tag "module" :: m.jsonFields
  | .function f => tag "function" :: f.jsonFields
  | .struct s => tag "struct" :: s.jsonFields
  | .constant c => tag "const" :: c.jsonFields
  | .typeAlias a => tag "type_alias" :: a.jsonFields
  | .trait t => tag "trait" :: t.jsonFields
  | .impl i => tag "impl" :: i.jsonFields

/-
  The documents of a list are those of its definitions in
  turn.
-/
theorem Module.encodeDefinitions_eq
    (ds : List Definition) :
    encodeDefinitions ds = ds.map Definition.encode := by
  induction ds with
  | nil => rw [encodeDefinitions, List.map_nil]
  | cons d ds ih =>
      rw [encodeDefinitions, ih, List.map_cons]

/-
  The module that a document stands for, its definitions
  being decoded by `definition?`.
-/
def Module.decodeWith?
    (definition? : Json → Option Definition)
    (j : Json) : Option Module := do
  let name ← j.at? "name" Identifier.decode?
  let definitions ←
    j.at? "definitions" (items? definition?)
  let span ← j.at? "span" Span.decode?
  pure ⟨name, definitions, span⟩

/- A module is decoded if all definitions below it are. -/
theorem Module.decodeWith?_of_hasFields
    {definition? : Json → Option Definition}
    {j : Json}
    {m : Module}
    (hReads :
      ∀ d : Definition,
        d.encode.height < j.height →
        definition? d.encode = some d)
    (hFields : j.HasFields m.jsonFields) :
    decodeWith? definition? j = some m := by
  rcases m with ⟨name, definitions, span⟩
  simp only [jsonFields, encodeDefinitions_eq,
    Json.hasFields_cons] at hFields
  have hDefinitions :
      ∀ d ∈ definitions,
        definition? d.encode = some d := by
    intro d hMem
    refine hReads d ?_
    exact Json.height_lt_of_mem_member? hFields.2.1 hMem
  simp [decodeWith?, at?, hFields,
    Json.items?_array hDefinitions]

namespace Definition

/-
  Every definition is a record, which leads with its tag.
-/
theorem encode_eq_record
    (d : Definition) :
    d.encode = .record d.jsonFields := by
  cases d <;> rw [encode, jsonFields]

/-
  No two fields of a definition have one key, so all of them
  are found.
-/
theorem hasFields_encode
    (d : Definition) :
    d.encode.HasFields d.jsonFields := by
  rw [encode_eq_record]
  apply Json.hasFields_record
  cases d with
  | module m =>
      cases m
      simp [jsonFields, tag, Module.jsonFields]
  | function f =>
      simp [jsonFields, tag, Function.jsonFields]
  | struct s => simp [jsonFields, tag, Struct.jsonFields]
  | constant c =>
      simp [jsonFields, tag, Constant.jsonFields]
  | typeAlias a =>
      simp [jsonFields, tag, TypeAlias.jsonFields]
  | trait t => simp [jsonFields, tag, Trait.jsonFields]
  | impl i => simp [jsonFields, tag, Impl.jsonFields]

/-
  The definition that a document stands for, its parts being
  decoded by `definition?`.
-/
def decodeStep?
    (definition? : Json → Option Definition)
    (j : Json) : Option Definition := do
  match ← j.at? "definition" Json.toText? with
  | "module" =>
      (Module.decodeWith? definition? j).map module
  | "function" => (Function.decode? j).map function
  | "struct" => (Struct.decode? j).map struct
  | "const" => (Constant.decode? j).map constant
  | "type_alias" => (TypeAlias.decode? j).map typeAlias
  | "trait" => (Trait.decode? j).map trait
  | "impl" => (Impl.decode? j).map impl
  | _ => none

/- The definition that a document stands for. -/
def decode? : Json → Option Definition :=
  Json.nested? decodeStep?

/-
  One step decodes a definition if those inside it, whose
  documents are smaller, are decoded.
-/
theorem decodeStep?_encode
    (definition? : Json → Option Definition)
    (d : Definition)
    (hReads :
      ∀ part : Definition,
        part.encode.height < d.encode.height →
        definition? part.encode = some part) :
    decodeStep? definition? d.encode = some d := by
  have hFields := hasFields_encode d
  generalize d.encode = j at hFields hReads ⊢
  cases d with
  | module m =>
      rcases Json.hasFields_cons.mp hFields with
        ⟨hTag, hModule⟩
      simp [decodeStep?, at?, hTag,
        Module.decodeWith?_of_hasFields hReads hModule]
  | function f =>
      rcases Json.hasFields_cons.mp hFields with
        ⟨hTag, hFunction⟩
      simp [decodeStep?, at?, hTag,
        Function.decode?_of_hasFields hFunction]
  | struct s =>
      rcases Json.hasFields_cons.mp hFields with
        ⟨hTag, hStruct⟩
      simp [decodeStep?, at?, hTag,
        Struct.decode?_of_hasFields hStruct]
  | constant c =>
      rcases Json.hasFields_cons.mp hFields with
        ⟨hTag, hConstant⟩
      simp [decodeStep?, at?, hTag,
        Constant.decode?_of_hasFields hConstant]
  | typeAlias a =>
      rcases Json.hasFields_cons.mp hFields with
        ⟨hTag, hAlias⟩
      simp [decodeStep?, at?, hTag,
        TypeAlias.decode?_of_hasFields hAlias]
  | trait t =>
      rcases Json.hasFields_cons.mp hFields with
        ⟨hTag, hTrait⟩
      simp [decodeStep?, at?, hTag,
        Trait.decode?_of_hasFields hTrait]
  | impl i =>
      rcases Json.hasFields_cons.mp hFields with
        ⟨hTag, hImpl⟩
      simp [decodeStep?, at?, hTag,
        Impl.decode?_of_hasFields hImpl]

/-
  By induction on the height, a definition is what its own
  document is decoded to.
-/
@[simp] theorem decode?_encode
    (d : Definition) :
    decode? d.encode = some d :=
  Json.nested?_encode decodeStep?_encode d

end Definition

mutual

/- The document of a definition can be written. -/
@[simp] theorem Definition.encode_written
    (d : Definition) :
    d.encode.IsWritten := by
  cases d with
  | module m =>
      have hModule := Module.jsonFields_written m
      exact Json.isWritten_tagged _ _ hModule
  | function f =>
      exact Json.isWritten_tagged _ _ f.jsonFields_written
  | struct s =>
      exact Json.isWritten_tagged _ _ s.jsonFields_written
  | constant c =>
      exact Json.isWritten_tagged _ _ c.jsonFields_written
  | typeAlias a =>
      exact Json.isWritten_tagged _ _ a.jsonFields_written
  | trait t =>
      exact Json.isWritten_tagged _ _ t.jsonFields_written
  | impl i =>
      exact Json.isWritten_tagged _ _ i.jsonFields_written

theorem Module.jsonFields_written
    (m : Module) :
    ∀ f ∈ m.jsonFields, f.2.IsWritten := by
  rcases m with ⟨name, definitions, span⟩
  have hDefinitions :=
    Module.encodeDefinitions_written definitions
  simp [Module.jsonFields,
    Json.IsWritten.array hDefinitions]

/- The documents of definitions in a list can be written. -/
theorem Module.encodeDefinitions_written
    (ds : List Definition) :
    ∀ j ∈ Module.encodeDefinitions ds, j.IsWritten := by
  cases ds with
  | nil => exact nofun
  | cons d ds =>
      exact
        List.forall_mem_cons.mpr
          ⟨Definition.encode_written d,
            Module.encodeDefinitions_written ds⟩

end

end FeSyntax
