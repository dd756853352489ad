import FeSyntax.Proofs.Decoding.Name

/-
  This file defines decoders for type expressions and for
  patterns, and proves that they give back what was encoded.
  The tag says which fields there are, and none of them has
  the name of the tag.

  Key definitions include:
    * `Ty.jsonFields`
    * `Ty.decode?`
    * `Pattern.jsonFields`
    * `Pattern.decode?`

  Key theorems include:
    * `Ty.decode?_encode`
    * `Ty.encode_written`
    * `Pattern.decode?_encode`
    * `Pattern.encode_written`
-/

namespace FeSyntax

open Json (at? items?)

------------------------------------------------------------
-- Type Expressions
------------------------------------------------------------

namespace Primitive

/- The primitive type that a document stands for. -/
def decode?
    (j : Json) : Option Primitive := do
  let word ← j.toText?
  all.find? (fun p => p.spelling = word)

/-
  The spelling of a primitive type stands for that type
  only.
-/
@[simp] theorem decode?_ofText
    (p : Primitive) :
    decode? (.ofText p.spelling) = some p := by
  rw [decode?, Json.toText?_ofText]
  cases p <;> decide

end Primitive

namespace Ty

/- The fields of a type expression, with its tag. -/
def jsonFields : Ty → JsonFields
  | path p => tag "path" :: p.jsonFields
  | reference isMut inner span =>
      [ tag "reference",
        ("is_mut", .bool isMut),
        ("inner", inner.encode),
        ("span", span.encode) ]
  | primitive kind span =>
      [ tag "primitive",
        ("kind", .ofText kind.spelling),
        ("span", span.encode) ]
  | tuple elements span =>
      [ tag "tuple",
        ("elements", .array (elements.map encode)),
        ("span", span.encode) ]

/-
  The documents of a list are those of its types in turn.
-/
theorem encodeAll_eq
    (tys : List Ty) :
    encodeAll tys = tys.map encode := by
  induction tys with
  | nil => rfl
  | cons ty tys ih => rw [encodeAll, ih, List.map_cons]

/-
  Every type is written as a record, which leads with its
  tag.
-/
theorem encode_eq_record
    (ty : Ty) :
    ty.encode = .record ty.jsonFields := by
  cases ty with
  | tuple elements span =>
      rw [encode, encodeAll_eq, jsonFields]
  | _ => rw [encode, jsonFields]

/- So the document of a type has all its fields. -/
theorem hasFields_encode
    (ty : Ty) :
    ty.encode.HasFields ty.jsonFields := by
  rw [encode_eq_record]
  apply Json.hasFields_record
  cases ty <;> simp [jsonFields, tag, Path.jsonFields]

@[simp] theorem encode_ne_null
    (ty : Ty) :
    ty.encode ≠ .null := by
  rw [encode_eq_record]
  nofun

/-
  The type expression that a document stands for, its parts
  being decoded by `inner?`.
-/
def decodeStep?
    (inner? : Json → Option Ty)
    (j : Json) : Option Ty := do
  match ← j.at? "type" Json.toText? with
  | "path" => (Path.decode? j).map path
  | "reference" =>
      let isMut ← j.at? "is_mut" Json.toBool?
      let inner ← j.at? "inner" inner?
      let span ← j.at? "span" Span.decode?
      pure (reference isMut inner span)
  | "primitive" =>
      let kind ← j.at? "kind" Primitive.decode?
      let span ← j.at? "span" Span.decode?
      pure (primitive kind span)
  | "tuple" =>
      let elements ← j.at? "elements" (items? inner?)
      let span ← j.at? "span" Span.decode?
      pure (tuple elements span)
  | _ => none

/- The type expression that a document stands for. -/
def decode? : Json → Option Ty :=
  Json.nested? decodeStep?

/-
  One step decodes a type if the step's own decoder does so
  for the parts, whose documents are smaller.
-/
theorem decodeStep?_encode
    (inner? : Json → Option Ty)
    (ty : Ty)
    (hInner :
      ∀ part : Ty,
        part.encode.height < ty.encode.height →
        inner? part.encode = some part) :
    decodeStep? inner? ty.encode = some ty := by
  have hFields := hasFields_encode ty
  generalize ty.encode = j at hFields hInner ⊢
  cases ty with
  | path p =>
      rcases Json.hasFields_cons.mp hFields with
        ⟨hTag, hPath⟩
      simp [decodeStep?, at?, hTag,
        Path.decode?_of_hasFields hPath]
  | reference isMut referent span =>
      simp only [jsonFields, tag, Json.hasFields_cons]
        at hFields
      have hReferent :=
        hInner referent
          (Json.height_lt_of_member? hFields.2.2.1)
      simp [decodeStep?, at?, hFields, hReferent]
  | primitive kind span =>
      simp only [jsonFields, tag, Json.hasFields_cons]
        at hFields
      simp [decodeStep?, at?, hFields]
  | tuple elements span =>
      simp only [jsonFields, tag, Json.hasFields_cons]
        at hFields
      have hElements :
          ∀ part ∈ elements,
            inner? part.encode = some part := by
        intro part hMem
        refine hInner part ?_
        exact Json.height_lt_of_mem_member? hFields.2.1 hMem
      simp [decodeStep?, at?, hFields,
        Json.items?_array hElements]

/-
  By induction on the height, a type is what its own
  document is decoded to.
-/
@[simp] theorem decode?_encode
    (ty : Ty) :
    decode? ty.encode = some ty :=
  Json.nested?_encode decodeStep?_encode ty

mutual

@[simp] theorem encode_written
    (ty : Ty) :
    ty.encode.IsWritten := by
  cases ty with
  | path p =>
      exact Json.isWritten_tagged _ _ p.jsonFields_written
  | reference isMut inner span =>
      have hInner := encode_written inner
      refine .record ?_
      simp [tag, hInner]
  | primitive kind span =>
      refine .record ?_
      simp [tag]
  | tuple elements span =>
      have hElements := encodeAll_written elements
      refine .record ?_
      simp [tag, Json.IsWritten.array hElements]

/- The documents of types in a list can be written. -/
theorem encodeAll_written
    (tys : List Ty) :
    ∀ j ∈ encodeAll tys, j.IsWritten := by
  cases tys with
  | nil => exact nofun
  | cons ty tys =>
      exact
        List.forall_mem_cons.mpr
          ⟨encode_written ty, encodeAll_written tys⟩

end

end Ty

------------------------------------------------------------
-- Patterns
------------------------------------------------------------

namespace Pattern

/- The fields of a pattern, with its tag. -/
def jsonFields : Pattern → JsonFields
  | identifier name => tag "identifier" :: name.jsonFields
  | literal l => tag "literal" :: l.jsonFields
  | wildcard span => tag "wildcard" :: span.jsonFields
  | tupleStruct path elements span =>
      [ tag "tuple_struct",
        ("path", path.encode),
        ("elements", .array (elements.map encode)),
        ("span", span.encode) ]

/-
  The documents of a list are those of its patterns in turn.
-/
theorem encodeAll_eq
    (ps : List Pattern) :
    encodeAll ps = ps.map encode := by
  induction ps with
  | nil => rfl
  | cons p ps ih => rw [encodeAll, ih, List.map_cons]

/- Every pattern is written as a record. -/
theorem encode_eq_record
    (p : Pattern) :
    p.encode = .record p.jsonFields := by
  cases p with
  | tupleStruct path elements span =>
      rw [encode, encodeAll_eq, jsonFields]
  | _ => rw [encode, jsonFields]

/- So the document of a pattern has all its fields. -/
theorem hasFields_encode
    (p : Pattern) :
    p.encode.HasFields p.jsonFields := by
  rw [encode_eq_record]
  apply Json.hasFields_record
  cases p <;>
    simp [jsonFields, tag, Identifier.jsonFields,
      Literal.jsonFields, Span.jsonFields]

/-
  The pattern that a document stands for, its parts being
  decoded by `inner?`.
-/
def decodeStep?
    (inner? : Json → Option Pattern)
    (j : Json) : Option Pattern := do
  match ← j.at? "pattern" Json.toText? with
  | "identifier" => (Identifier.decode? j).map identifier
  | "literal" => (Literal.decode? j).map literal
  | "wildcard" => (Span.decode? j).map wildcard
  | "tuple_struct" =>
      let path ← j.at? "path" Path.decode?
      let elements ← j.at? "elements" (items? inner?)
      let span ← j.at? "span" Span.decode?
      pure (tupleStruct path elements span)
  | _ => none

/- The pattern that a document stands for. -/
def decode? : Json → Option Pattern :=
  Json.nested? decodeStep?

/-
  One step decodes a pattern if its parts, whose documents
  are smaller, are decoded.
-/
theorem decodeStep?_encode
    (inner? : Json → Option Pattern)
    (p : Pattern)
    (hInner :
      ∀ part : Pattern,
        part.encode.height < p.encode.height →
        inner? part.encode = some part) :
    decodeStep? inner? p.encode = some p := by
  have hFields := hasFields_encode p
  generalize p.encode = j at hFields hInner ⊢
  cases p with
  | identifier name =>
      rcases Json.hasFields_cons.mp hFields with
        ⟨hTag, hName⟩
      simp [decodeStep?, at?, hTag,
        Identifier.decode?_of_hasFields hName]
  | literal l =>
      rcases Json.hasFields_cons.mp hFields with
        ⟨hTag, hLiteral⟩
      simp [decodeStep?, at?, hTag,
        Literal.decode?_of_hasFields hLiteral]
  | wildcard span =>
      rcases Json.hasFields_cons.mp hFields with
        ⟨hTag, hSpan⟩
      simp [decodeStep?, at?, hTag,
        Span.decode?_of_hasFields hSpan]
  | tupleStruct path elements span =>
      simp only [jsonFields, tag, Json.hasFields_cons]
        at hFields
      have hElements :
          ∀ part ∈ elements,
            inner? part.encode = some part := by
        intro part hMem
        refine hInner part ?_
        exact
          Json.height_lt_of_mem_member? hFields.2.2.1 hMem
      simp [decodeStep?, at?, hFields,
        Json.items?_array hElements]

/-
  By induction on the height, a pattern is what its own
  document is decoded to.
-/
@[simp] theorem decode?_encode
    (p : Pattern) :
    decode? p.encode = some p :=
  Json.nested?_encode decodeStep?_encode p

mutual

/- The document of a pattern can be written. -/
@[simp] theorem encode_written
    (p : Pattern) :
    p.encode.IsWritten := by
  cases p with
  | identifier name =>
      have hName := name.jsonFields_written
      exact Json.isWritten_tagged _ _ hName
  | literal l =>
      exact Json.isWritten_tagged _ _ l.jsonFields_written
  | wildcard span =>
      have hSpan := span.jsonFields_written
      exact Json.isWritten_tagged _ _ hSpan
  | tupleStruct path elements span =>
      have hElements := encodeAll_written elements
      refine .record ?_
      simp [tag, Json.IsWritten.array hElements]

/- The documents of patterns in a list can be written. -/
theorem encodeAll_written
    (ps : List Pattern) :
    ∀ j ∈ encodeAll ps, j.IsWritten := by
  cases ps with
  | nil => exact nofun
  | cons p ps =>
      exact
        List.forall_mem_cons.mpr
          ⟨encode_written p, encodeAll_written ps⟩

end

end Pattern

end FeSyntax
