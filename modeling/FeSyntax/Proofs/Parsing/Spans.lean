import FeSyntax.Proofs.Parsing.OwnershipDefinition
import FeSyntax.Proofs.Parsing.Source
import FeSyntax.Session

/-
  This file proves that the spans of a syntax tree are exact
  and properly nested.  Every node covers a run of tokens,
  inside the run of its parent and behind the runs of the
  children in front of it, so the text of every node can be
  taken from the source.

  Key theorems include:
    * `Span.Encloses.exists_slice?`
    * `Node.Covers.slice?_identifier`
    * `SourceFile.nodes_cover_tokens`
-/

namespace FeSyntax

variable {source : String}

------------------------------------------------------------
-- Texts Of Words
------------------------------------------------------------

/- A text whose kind is a word is that word. -/
theorem Lexeme.TokenText.eq_word
    {text : List Char}
    {kind : TokenKind}
    {word : String}
    (hText : TokenText text kind)
    (hWord : kind.word? = some word) :
    text = word.toList := by
  cases hText with
  | word hStart hRest =>
      rw [TokenKind.word?_ofWord] at hWord
      rw [← Option.some.inj hWord, String.toList_ofList]
  | _ => cases hWord

/- The token of a word is written as that word. -/
theorem text_of_mem_significantTokens
    {t : Token}
    {word : String}
    (hMem : t ∈ significantTokens source)
    (hWord : t.kind.word? = some word) :
    t.text = word := by
  rcases mem_tokenize_of_mem_significantTokens hMem with
    ⟨hToken, hSignificant⟩
  have hProper : ∀ cause, t.kind ≠ .error cause := by
    intro cause hError
    rw [hError] at hWord
    cases hWord
  have hText :=
    (Scanner.ofString source).tokenText_of_mem_tokens hToken
      hSignificant.2 hProper
  exact String.toList_inj.mp (hText.eq_word hWord)

------------------------------------------------------------
-- Spans Of Runs
------------------------------------------------------------

section Runs

variable {run : List Token}
variable {s : Span}

/- A run stops behind where it starts. -/
theorem Span.Encloses.start_lt_stop
    (hSpan : s.Encloses run)
    (hRun : run <:+: significantTokens source) :
    s.start < s.stop := by
  rcases hSpan with
    ⟨⟨first, hFirst, hStart, -⟩, ⟨last, hLast, hStop⟩⟩
  have hMem : first ∈ run := List.mem_of_head? hFirst
  have hNonempty :=
    start_lt_stop_of_mem_significantTokens (hRun.subset hMem)
  have hOrdered :=
    (ordered_significantTokens source).sublist hRun.sublist
  rw [hStart, hStop]
  cases run with
  | nil => cases hFirst
  | cons t more =>
      cases hFirst
      rcases List.eq_nil_or_concat more with
        rfl | ⟨front, u, rfl⟩
      · cases hLast
        exact hNonempty
      · rw [List.concat_eq_append, ← List.cons_append,
          List.getLast?_concat] at hLast
        cases hLast
        have hBetween :=
          (List.pairwise_cons.mp hOrdered).1 last (by simp)
        have hEnd :=
          start_lt_stop_of_mem_significantTokens
            (hRun.subset (a := last) (by simp))
        omega

/- A run has a text, with characters in it. -/
theorem Span.Encloses.exists_slice?
    (hSpan : s.Encloses run)
    (hRun : run <:+: significantTokens source) :
    s.stop ≤ source.utf8ByteSize ∧
      ∃ text,
        Text.slice? source s.start s.stop = some text ∧
          text ≠ "" := by
  have hOrder := hSpan.start_lt_stop hRun
  rcases hSpan with
    ⟨⟨first, hFirst, hStart, -⟩, ⟨last, hLast, hStop⟩⟩
  have hCovers :
      ∀ t ∈ run, t.Covers source := fun t hMem =>
    covers_of_mem_tokenize
      (mem_tokenize_of_mem_significantTokens
        (hRun.subset hMem)).1
  rcases hCovers first (List.mem_of_head? hFirst) with
    ⟨before, behind, hSource, hFirstStart, -⟩
  rcases hCovers last (List.mem_of_getLast? hLast) with
    ⟨before', behind', hSource', -, hLastStop⟩
  rw [hStart, hFirstStart] at hOrder ⊢
  rw [hStop, hLastStop] at hOrder ⊢
  rw [String.append_assoc] at hSource
  rcases Text.exists_slice? hSource hSource' hOrder.le with
    ⟨middle, hSlice, hFront⟩
  refine ⟨?_, middle, hSlice, ?_⟩
  · rw [hSource']
    simp only [String.utf8ByteSize_append]
    omega
  · rintro rfl
    rw [hFront, String.append_empty] at hOrder
    omega

/- The text of an identifier is its name. -/
theorem Node.Covers.slice?_identifier
    {i : Identifier}
    (hNode : (Node.identifier i).Covers run)
    (hRun : run <:+: significantTokens source) :
    Text.slice? source i.span.start i.span.stop =
      some i.name := by
  rcases hNode with ⟨hSpan, hName⟩
  rcases List.map_eq_singleton_iff.mp (hName i rfl) with
    ⟨t, rfl, hWord⟩
  rcases hSpan with
    ⟨⟨first, hFirst, hStart, -⟩, ⟨last, hLast, hStop⟩⟩
  have hHead : t = first := Option.some.inj hFirst
  have hEnd : t = last := Option.some.inj hLast
  subst hHead hEnd
  have hMem : t ∈ significantTokens source :=
    hRun.subset List.mem_cons_self
  have hCovers :=
    covers_of_mem_tokenize
      (mem_tokenize_of_mem_significantTokens hMem).1
  have hSlice := Tiling.slice?_of_covers hCovers
  rw [text_of_mem_significantTokens hMem hWord, ← hStart,
    ← hStop] at hSlice
  exact hSlice

end Runs

------------------------------------------------------------
-- Source Files
------------------------------------------------------------

namespace SourceFile

variable {limit : Nat}
variable {f : SourceFile}

/- The text of a comment is what stands at its span. -/
theorem slice?_of_mem_comments
    {c : Comment}
    (hParse : SourceFile.parse source limit = .ok f)
    (hMem : c ∈ f.comments) :
    Text.slice? source c.span.start c.span.stop =
      some c.text := by
  rcases parse_eq_ok_iff.mp hParse with
    ⟨rest, -, hComments, -⟩
  rw [hComments] at hMem
  rcases List.mem_map.mp hMem with ⟨t, hToken, rfl⟩
  exact Tiling.slice?_of_covers
    (covers_of_mem_tokenize (List.mem_of_mem_filter hToken))

/-
  The span of a file is its text.  Every other node covers a
  run of significant tokens exactly: its children own parts
  of that run, one behind the other.  So no span is empty or
  reversed, or ends behind the text, and the text of every
  node can be taken from the source.  For an identifier that
  is its name, and for a comment its text.
-/
theorem nodes_cover_tokens
    (grammar : GrammarHandle)
    (hParse : SourceFile.parse source limit = .ok f) :
    f.span = ⟨0, source.utf8ByteSize, 1, 1⟩ ∧
    Outline.OwnsAll (f.definitions.map Definition.outline)
      (significantTokens source) ∧
    (∀ n ∈ f.nodes.tail,
      (∃ run, run <:+: significantTokens source ∧
        run ≠ [] ∧ n.Covers run) ∧
      n.span.start < n.span.stop ∧
      n.span.stop ≤ source.utf8ByteSize ∧
      n.span.length? =
        some (n.span.stop - n.span.start) ∧
      (∃ text,
        Text.slice? source n.span.start n.span.stop =
          some text ∧
        text ≠ "") ∧
      ∀ i, n = .identifier i →
        ParsedFile.text ⟨source, f, grammar⟩ i.span.start
            i.span.stop =
          i.name) ∧
    ∀ c ∈ f.comments,
      ParsedFile.text ⟨source, f, grammar⟩ c.span.start
          c.span.stop =
        c.text := by
  rcases parse_eq_ok_iff.mp hParse with
    ⟨rest, hRun, -, hSpan⟩
  have hAll := Parser.ownsAll_of_definitions hRun
  refine ⟨?_, hAll, fun n hMem => ?_, fun c hMem => ?_⟩
  · rw [hSpan, Cursor.span_stop_stopOf]
  · have hBelow :
        n ∈ Outline.walkAll (fun _ => true)
          (f.definitions.map Definition.outline) := by
      rw [← Module.outlineDefinitions_eq]
      simpa [nodes, outline, Outline.nodes,
        Outline.walk] using hMem
    rcases Outline.OwnsAll.exists_run _ hAll hBelow with
      ⟨run, hInfix, hNode⟩
    have hOrder := hNode.span.start_lt_stop hInfix
    rcases hNode.span.exists_slice? hInfix with
      ⟨hStop, hText⟩
    refine
      ⟨⟨run, hInfix, ?_, hNode⟩, hOrder, hStop,
        if_pos hOrder.le, hText, ?_⟩
    · rintro rfl
      rcases hNode.span.starts with ⟨first, hNone, -⟩
      cases hNone
    · rintro i rfl
      rw [ParsedFile.text, hNode.slice?_identifier hInfix]
      rfl
  · rw [ParsedFile.text, slice?_of_mem_comments hParse hMem]
    rfl

/- A public constant between two comments. -/
def publicConstant : String :=
  "/* é */ pub const x: u8 = y::z;\n// done"

theorem nodes_cover_tokens_publicConstant :
    ∃ f, SourceFile.parse publicConstant 8 = .ok f ∧
      f.nodes.length = 8 ∧
      f.span = ⟨0, 40, 1, 1⟩ ∧
      Outline.OwnsAll (f.definitions.map Definition.outline)
        (significantTokens publicConstant) ∧
      ∀ n ∈ f.nodes.tail, n.span.start < n.span.stop := by
  have hRuns :
      (SourceFile.parse publicConstant 8).toOption.map
          (fun f => f.nodes.length) =
        some 8 := by
    decide +kernel
  cases hParse : SourceFile.parse publicConstant 8 with
  | error e =>
      rw [hParse] at hRuns
      cases hRuns
  | ok f =>
      rw [hParse] at hRuns
      rcases nodes_cover_tokens .builtin hParse with
        ⟨hSpan, hAll, hNodes, -⟩
      have hSize : publicConstant.utf8ByteSize = 40 := by
        decide +kernel
      rw [hSize] at hSpan
      refine
        ⟨f, rfl, Option.some.inj hRuns, hSpan, hAll, ?_⟩
      intro n hMem
      exact (hNodes n hMem).2.1

end SourceFile

end FeSyntax
