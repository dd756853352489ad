import FeSyntax.Ast.Encoding
import FeSyntax.Proofs.Json.Decoding
import FeSyntax.Proofs.Json.Reading

/-
  This file defines decoders for the smallest parts of the
  syntax tree, and proves that they give back what was
  encoded.  A decoder asks for the fields that it needs, so
  it works wherever these are, as behind the tag of a node.

  Key definitions include:
    * `Span.decode?`
    * `Identifier.decode?`
    * `Path.decode?`
    * `LiteralValue.decode?`
    * `Literal.decode?`
    * `Comment.decode?`
-/

namespace FeSyntax

open Json (at? optional? items? natural? HasFields)

------------------------------------------------------------
-- Spans
------------------------------------------------------------

namespace Span

/- The span that a document stands for. -/
def decode?
    (j : Json) : Option Span := do
  let start ← j.at? "start" natural?
  let stop ← j.at? "end" natural?
  let line ← j.at? "line" natural?
  let column ← j.at? "column" natural?
  pure ⟨start, stop, line, column⟩

/-
  A document with the fields of a span is decoded to it,
  whatever else it holds.
-/
theorem decode?_of_hasFields
    {j : Json}
    {s : Span}
    (hFields : j.HasFields s.jsonFields) :
    decode? j = some s := by
  simp only [jsonFields, Json.hasFields_cons] at hFields
  simp [decode?, at?, hFields]

/- So is the document that a span is written as. -/
@[simp] theorem decode?_encode
    (s : Span) :
    decode? s.encode = some s :=
  decode?_of_hasFields
    (Json.hasFields_record (by simp [jsonFields]))

/- The four numbers of a span can be written in JSON. -/
theorem jsonFields_written
    (s : Span) :
    ∀ f ∈ s.jsonFields, f.2.IsWritten := by
  simp [jsonFields]

/- The document of a span can be written as a JSON text. -/
@[simp] theorem encode_written
    (s : Span) :
    s.encode.IsWritten :=
  .record s.jsonFields_written

end Span

------------------------------------------------------------
-- Identifiers And Paths
------------------------------------------------------------

namespace Identifier

/- The identifier that a document stands for. -/
def decode?
    (j : Json) : Option Identifier := do
  let name ← j.at? "name" Json.toText?
  let span ← j.at? "span" Span.decode?
  pure ⟨name, span⟩

/- Fields named `name` and `span` make an identifier. -/
theorem decode?_of_hasFields
    {j : Json}
    {i : Identifier}
    (hFields : j.HasFields i.jsonFields) :
    decode? j = some i := by
  simp only [jsonFields, Json.hasFields_cons] at hFields
  simp [decode?, at?, hFields]

/- An identifier is what its own document is decoded to. -/
@[simp] theorem decode?_encode
    (i : Identifier) :
    decode? i.encode = some i :=
  decode?_of_hasFields
    (Json.hasFields_record (by simp [jsonFields]))

/-
  The name is a text and the span a record, so both can be
  written.
-/
theorem jsonFields_written
    (i : Identifier) :
    ∀ f ∈ i.jsonFields, f.2.IsWritten := by
  simp [jsonFields]

/- The document of an identifier can be written. -/
@[simp] theorem encode_written
    (i : Identifier) :
    i.encode.IsWritten :=
  .record i.jsonFields_written

@[simp] theorem items?_encodeAll
    (names : List Identifier) :
    items? decode? (encodeAll names) = some names :=
  Json.items?_array fun i _ => i.decode?_encode

/- The documents of names in a list can be written. -/
@[simp] theorem encodeAll_written
    (names : List Identifier) :
    (encodeAll names).IsWritten :=
  Json.isWritten_array_map fun i _ => i.encode_written

end Identifier

namespace Path

/- The path that a document stands for. -/
def decode?
    (j : Json) : Option Path := do
  let segments ←
    j.at? "segments" (items? Identifier.decode?)
  let span ← j.at? "span" Span.decode?
  pure ⟨segments, span⟩

/- A path is told by its segments and its span. -/
theorem decode?_of_hasFields
    {j : Json}
    {p : Path}
    (hFields : j.HasFields p.jsonFields) :
    decode? j = some p := by
  simp only [jsonFields, Json.hasFields_cons] at hFields
  simp [decode?, at?, hFields]

/- A path is what its own document is decoded to. -/
@[simp] theorem decode?_encode
    (p : Path) :
    decode? p.encode = some p :=
  decode?_of_hasFields
    (Json.hasFields_record (by simp [jsonFields]))

theorem jsonFields_written
    (p : Path) :
    ∀ f ∈ p.jsonFields, f.2.IsWritten := by
  simp [jsonFields]

@[simp] theorem encode_written
    (p : Path) :
    p.encode.IsWritten :=
  .record p.jsonFields_written

end Path

------------------------------------------------------------
-- Literals
------------------------------------------------------------

namespace IntSuffix

/- The suffix that a document stands for. -/
def decode?
    (j : Json) : Option IntSuffix := do
  let word ← j.toText?
  all.find? (fun s => s.spelling = word)

/- The spelling of a suffix stands for that suffix only. -/
@[simp] theorem decode?_ofText
    (s : IntSuffix) :
    decode? (.ofText s.spelling) = some s := by
  rw [decode?, Json.toText?_ofText]
  cases s <;> decide

end IntSuffix

namespace LiteralValue

/- The number that a document stands for. -/
def decodeNumber?
    (j : Json) : Option LiteralValue := do
  let value ← j.at? "value" (optional? natural?)
  let suffix ← j.at? "suffix" (optional? IntSuffix.decode?)
  pure (number value suffix)

/-
  The value that a document stands for.  The key says of
  which sort it is.
-/
def decode?
    (j : Json) : Option LiteralValue :=
  j.at? "number" decodeNumber? <|>
    (j.at? "bool" Json.toBool?).map bool <|>
      (j.at? "string" Json.toText?).map string

/- The fields under the key of a number. -/
def numberFields
    (value : Option Nat)
    (suffix : Option IntSuffix) : JsonFields :=
  [ ("value", .ofOption (value.map .ofNat)),
    ("suffix", encodeSuffix suffix) ]

/-
  A number comes back with its value, or without one, and
  with its suffix.
-/
theorem decodeNumber?_of_hasFields
    {j : Json}
    {value : Option Nat}
    {suffix : Option IntSuffix}
    (hFields : j.HasFields (numberFields value suffix)) :
    decodeNumber? j = some (number value suffix) := by
  simp only [numberFields, Json.hasFields_cons] at hFields
  simp [decodeNumber?, at?, hFields, encodeSuffix]

/- A literal is led back by the tag of its kind. -/
@[simp] theorem decode?_encode
    (v : LiteralValue) :
    decode? v.encode = some v := by
  cases v with
  | number value suffix =>
      have hNumber :
          decodeNumber?
              (.record (numberFields value suffix)) =
            some (number value suffix) :=
        decodeNumber?_of_hasFields
          (Json.hasFields_record (by simp [numberFields]))
      rw [numberFields] at hNumber
      simp [decode?, encode, at?, hNumber]
  | bool b => simp [decode?, encode, at?]
  | string s => simp [decode?, encode, at?]

/-
  The document of a value can be written, a missing number
  included.
-/
@[simp] theorem encode_written
    (v : LiteralValue) :
    v.encode.IsWritten := by
  cases v with
  | number value suffix =>
      refine .record (List.forall_mem_singleton.mpr ?_)
      refine .record ?_
      simp [encodeSuffix]
  | bool b => exact .record (by simp)
  | string s => exact .record (by simp)

end LiteralValue

namespace Literal

/- The literal that a document stands for. -/
def decode?
    (j : Json) : Option Literal := do
  let value ← j.at? "value" LiteralValue.decode?
  let span ← j.at? "span" Span.decode?
  pure ⟨value, span⟩

/-
  The tag leads to the value, and the span stands beside it.
-/
theorem decode?_of_hasFields
    {j : Json}
    {l : Literal}
    (hFields : j.HasFields l.jsonFields) :
    decode? j = some l := by
  simp only [jsonFields, Json.hasFields_cons] at hFields
  simp [decode?, at?, hFields]

theorem jsonFields_written
    (l : Literal) :
    ∀ f ∈ l.jsonFields, f.2.IsWritten := by
  simp [jsonFields]

end Literal

------------------------------------------------------------
-- Comments
------------------------------------------------------------

namespace Comment

/- The comment that a document stands for. -/
def decode?
    (j : Json) : Option Comment := do
  let text ← j.at? "text" Json.toText?
  let span ← j.at? "span" Span.decode?
  pure ⟨text, span⟩

/- A comment is what its own document is decoded to. -/
@[simp] theorem decode?_encode
    (c : Comment) :
    decode? c.encode = some c := by
  have hFields : c.encode.HasFields _ :=
    Json.hasFields_record (by simp)
  simp only [Json.hasFields_cons] at hFields
  simp [decode?, at?, hFields]

/- The document of a comment can be written. -/
@[simp] theorem encode_written
    (c : Comment) :
    c.encode.IsWritten :=
  .record (by simp)

end Comment

end FeSyntax
