import FeSyntax.Command.Render
import FeSyntax.Proofs.Decoding.Definition

/-
  This file proves that the JSON form of a syntax tree loses
  nothing.  A source file is decoded from its JSON text, on
  one line or with one item a line, whatever its names,
  texts, numbers, spans and nesting are.

  Key definitions include:
    * `SourceFile.decode?`
    * `SourceFile.ofJson?`

  Key theorems include:
    * `SourceFile.decode?_encode`
    * `SourceFile.encode_written`
    * `SourceFile.json_lossless`
    * `Session.ofJson?_of_render`
-/

namespace FeSyntax

open Json (at? items?)

namespace SourceFile

------------------------------------------------------------
-- Documents
------------------------------------------------------------

/- The source file that a document stands for. -/
def decode?
    (j : Json) : Option SourceFile := do
  let definitions ←
    j.at? "definitions" (items? Definition.decode?)
  let comments ← j.at? "comments" (items? Comment.decode?)
  let span ← j.at? "span" Span.decode?
  pure ⟨definitions, comments, span⟩

/- A file is what its own document is decoded to. -/
@[simp] theorem decode?_encode
    (f : SourceFile) :
    decode? f.encode = some f := by
  have hFields : f.encode.HasFields _ :=
    Json.hasFields_record (by simp)
  simp only [Module.encodeDefinitions_eq,
    Json.hasFields_cons] at hFields
  simp [decode?, at?, hFields]

@[simp] theorem encode_written
    (f : SourceFile) :
    f.encode.IsWritten :=
  .record (by simp [Module.encodeDefinitions_eq])

------------------------------------------------------------
-- Texts
------------------------------------------------------------

/- The source file that a JSON text stands for. -/
def ofJson?
    (text : String) : Option SourceFile :=
  (Json.read? text).bind decode?

/- The text without blanks is read back to the file. -/
theorem ofJson?_compact
    (f : SourceFile) :
    ofJson? f.encode.compact = some f := by
  rw [ofJson?, Json.read?_compact f.encode_written,
    Option.bind_some, decode?_encode]

theorem ofJson?_pretty
    (f : SourceFile) :
    ofJson? f.encode.pretty = some f := by
  rw [ofJson?, Json.read?_pretty f.encode_written,
    Option.bind_some, decode?_encode]

/- What can be decoded is told apart by its text. -/
theorem text_eq_iff
    {print : SourceFile → String}
    (hDecoded : ∀ f, ofJson? (print f) = some f)
    (f g : SourceFile) :
    print f = print g ↔ f = g := by
  constructor
  · intro hText
    have hFile := hDecoded f
    rw [hText, hDecoded g] at hFile
    exact (Option.some.inj hFile).symm
  · rintro rfl
    rfl

/-
  A source file is decoded from either of its JSON texts, so
  files with the same text are the same.
-/
theorem json_lossless
    (f g : SourceFile) :
    ofJson? f.encode.compact = some f ∧
    ofJson? f.encode.pretty = some f ∧
    (f.encode.compact = g.encode.compact ↔ f = g) ∧
    (f.encode.pretty = g.encode.pretty ↔ f = g) :=
  ⟨ofJson?_compact f, ofJson?_pretty f,
    text_eq_iff ofJson?_compact f g,
    text_eq_iff ofJson?_pretty f g⟩

end SourceFile

------------------------------------------------------------
-- Printed Texts
------------------------------------------------------------

/- What is printed as JSON stands for what was parsed. -/
theorem Session.ofJson?_of_render
    {s : Session}
    {source text : String}
    (hText : s.render .json source = .ok text) :
    ∃ f,
      s.parseRoot source = .ok f ∧
      SourceFile.ofJson? text = some f := by
  rw [render] at hText
  cases hRoot : s.parseRoot source with
  | error e =>
      rw [hRoot] at hText
      cases hText
  | ok f =>
      rw [hRoot] at hText
      have hSame : f.encode.pretty = text :=
        Except.ok.inj hText
      rw [← hSame]
      exact ⟨f, rfl, SourceFile.ofJson?_pretty f⟩

end FeSyntax
