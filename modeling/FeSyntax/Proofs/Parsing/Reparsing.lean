import FeSyntax.Proofs.Lexing.Relocated
import FeSyntax.Proofs.Parsing.Failure
import FeSyntax.Proofs.Parsing.RereadDefinition
import Mathlib.Data.List.Induction

/-
  This file proves that every node of a file can be parsed
  again from the text that its span covers.  What that gives
  is the node, with all spans counted from its start.

  Key definitions include:
    * `SourceFile.SliceParses`

  Key theorems include:
    * `exists_run_of_filter`
    * `SourceFile.sliceParses_of_readsAgain`
    * `SourceFile.nodes_parse_again`
-/

namespace FeSyntax

------------------------------------------------------------
-- Tokens Between Significant Ones
------------------------------------------------------------

section Runs

variable {keep : Token → Bool}

/- What is left out at the end can be cut off. -/
theorem exists_front_of_filter
    {tokens : List Token}
    (hSome : tokens.filter keep ≠ []) :
    ∃ run behind,
      tokens = run ++ behind ∧
      run.filter keep = tokens.filter keep ∧
      run.getLast? = (tokens.filter keep).getLast? := by
  induction tokens using List.reverseRecOn with
  | nil => exact absurd rfl hSome
  | append_singleton tokens t ih =>
      by_cases hKeep : keep t
      · refine
          ⟨tokens ++ [t], [], (List.append_nil _).symm, rfl,
            ?_⟩
        rw [List.filter_append, List.filter_singleton, hKeep,
          cond_true, List.getLast?_concat,
          List.getLast?_concat]
      · have hSame :
            (tokens ++ [t]).filter keep =
              tokens.filter keep := by
          rw [List.filter_append, List.filter_singleton,
            Bool.eq_false_of_not_eq_true hKeep, cond_false,
            List.append_nil]
        rw [hSame] at hSome ⊢
        rcases ih hSome with
          ⟨run, behind, rfl, hFilter, hLast⟩
        exact
          ⟨run, behind ++ [t], List.append_assoc _ _ _,
            hFilter, hLast⟩

/-
  Some tokens in a row among those that are kept are those
  of a run that starts and ends with them.
-/
theorem exists_run_of_filter
    {tokens part : List Token}
    (hPart : part <:+: tokens.filter keep)
    (hSome : part ≠ []) :
    ∃ before run behind,
      tokens = before ++ (run ++ behind) ∧
      run.filter keep = part ∧
      run.head? = part.head? ∧
      run.getLast? = part.getLast? := by
  rcases hPart with ⟨front, back, hAll⟩
  rcases List.filter_eq_append_iff.mp hAll.symm with
    ⟨first, behind, rfl, hFirst, -⟩
  rcases List.filter_eq_append_iff.mp hFirst with
    ⟨before, all, rfl, -, rfl⟩
  rcases exists_front_of_filter hSome with
    ⟨all', gap, rfl, hFilter, hLast⟩
  rw [← hFilter] at hSome hLast ⊢
  cases hCons : all'.filter keep with
  | nil => exact absurd hCons hSome
  | cons t part =>
      rcases List.filter_eq_cons_iff.mp hCons with
        ⟨gap', run, rfl, hGap, hKeep, rfl⟩
      refine
        ⟨before ++ gap', t :: run, gap ++ behind, ?_, ?_,
          rfl, ?_⟩
      · simp
      · rw [List.filter_cons_of_pos hKeep]
      · rw [← hCons, ← hLast,
          List.getLast?_append_of_ne_nil _ (by simp)]

end Runs

------------------------------------------------------------
-- Parts Of Source Files
------------------------------------------------------------

namespace SourceFile

variable {source : String}
variable {limit : Nat}
variable {f : SourceFile}

/-
  A fresh cursor on the text that the span covers parses it
  as `a`.
-/
def SliceParses
    {α : Type}
    (source : String)
    (limit : Nat)
    (parse : Cursor → Except SyntaxError α × Cursor)
    (span : Span)
    (a : α) : Prop :=
  ∃ text,
    Text.slice? source span.start span.stop = some text ∧
    (parse (Cursor.ofString text limit)).1 = .ok a

/-
  The text of the tokens is lexed as the same tokens, which
  are read again in the new place.
-/
theorem sliceParses_of_readsAgain
    {α : Type}
    [Placed α]
    {p : Nat → Parser α}
    {span : Span}
    {a : α}
    (hNone : NoErrors (tokenize source))
    (hAgain :
      (p limit).ReadsAgain (significantTokens source)
        span a) :
    SliceParses source limit (fun c => c.run p) span
      (Placed.move (Relocation.within span) a) := by
  rcases hAgain with ⟨part, hPart, hEncloses, hRead⟩
  rcases hEncloses with
    ⟨⟨first, hFirst, hStart, hLine, hColumn⟩,
      ⟨last, hLast, hStop⟩⟩
  have hSome : part ≠ [] := by
    rintro rfl
    cases hFirst
  rcases exists_run_of_filter hPart hSome with
    ⟨before, run, behind, hTokens, hFilter, hHead, hEnd⟩
  rw [hFirst] at hHead
  rw [hLast] at hEnd
  -- The end of the text is no significant token.
  have hBehind : behind ≠ [] := by
    rintro rfl
    rcases exists_tokenize_eq source with
      ⟨tokens, p', hAll, -⟩
    have hSame : last = Scanner.endToken p' := by
      rw [hAll, List.append_nil] at hTokens
      have hLasts := congrArg List.getLast? hTokens
      rw [List.getLast?_concat, List.getLast?_append,
        hEnd] at hLasts
      exact (Option.some.inj hLasts).symm
    have hMem : last ∈ run.filter fun t => t.IsSignificant :=
      hFilter ▸ List.mem_of_getLast? hLast
    have hSignificant := (List.mem_filter.mp hMem).2
    rw [hSame] at hSignificant
    exact absurd rfl (of_decide_eq_true hSignificant).2
  have hNoErrors : NoErrors run := by
    intro t hMem
    refine hNone t ?_
    rw [hTokens]
    simp [hMem]
  rcases tokenize_slice hTokens hBehind hNoErrors hHead hEnd
      hStart hLine hColumn hStop with
    ⟨text, p', hSlice, hText⟩
  refine ⟨text, hSlice, ?_⟩
  have hSignificant :
      significantTokens text =
        part.map (Relocation.within span).token := by
    rw [significantTokens, hText, List.filter_append,
      List.filter_map, ← hFilter]
    exact List.append_nil _
  have hRun :
      p (Cursor.ofString text limit).limit
          (Cursor.ofString text limit).rest =
        .done (Placed.move (Relocation.within span) a) [] := by
    rw [← hRead (Relocation.within span), ← hSignificant]
    rfl
  simp only [Cursor.run, hRun]

/-
  Every node that has a parser is parsed again from the text
  of its span, under the same limit: definitions in files
  and in modules, the functions of traits and impls, which
  are definitions there, types, expressions and patterns.
  All that changes are the spans.
-/
theorem nodes_parse_again
    (hParse : SourceFile.parse source limit = .ok f) :
    (∀ d, .definition d ∈ f.nodes →
      SliceParses source limit Cursor.definition d.span
        (d.mapSpans (Relocation.within d.span).span)) ∧
    (∀ g, .function g ∈ f.nodes →
      SliceParses source limit Cursor.definition g.span
        (.function
          (g.mapSpans (Relocation.within g.span).span))) ∧
    (∀ t, .ty t ∈ f.nodes →
      SliceParses source limit Cursor.ty t.span
        (t.mapSpans (Relocation.within t.span).span)) ∧
    (∀ e, .expression e ∈ f.nodes →
      SliceParses source limit Cursor.expression e.span
        (e.mapSpans (Relocation.within e.span).span)) ∧
    ∀ p, .pattern p ∈ f.nodes →
      SliceParses source limit Cursor.pattern p.span
        (p.mapSpans (Relocation.within p.span).span) := by
  rcases parse_eq_ok_iff.mp hParse with ⟨rest, hRun, -⟩
  have hNone := noErrors_of_parse hParse
  have hFile :
      f.outline.ReadsAgain limit
        (significantTokens source) := by
    rw [outline, Outline.readsAgain_node,
      Module.outlineDefinitions_eq]
    refine ⟨trivial, fun o hMem => ?_⟩
    rcases List.mem_map.mp hMem with ⟨d, hDefinition, rfl⟩
    exact Parser.definitions_give hRun d hDefinition
  refine ⟨?_, ?_, ?_, ?_, ?_⟩
  · exact fun d hMem =>
      sliceParses_of_readsAgain hNone (hFile _ hMem)
  · exact fun g hMem =>
      sliceParses_of_readsAgain hNone (hFile _ hMem)
  · exact fun t hMem =>
      sliceParses_of_readsAgain hNone (hFile _ hMem)
  · exact fun e hMem =>
      sliceParses_of_readsAgain hNone (hFile _ hMem)
  · exact fun p hMem =>
      sliceParses_of_readsAgain hNone (hFile _ hMem)

/- A function of several lines, two levels down. -/
def functionOfImpl : String :=
  "mod m \x7b impl u8 \x7b pub fn f(x: &a) \x7b\n" ++
    "  // é\n  match x \x7b y => \"ü\"; \x7d\n" ++
    "\x7d \x7d \x7d"

theorem nodes_parse_again_functionOfImpl :
    ∃ f g, SourceFile.parse functionOfImpl 8 = .ok f ∧
      .function g ∈ f.nodes ∧
      g.span = ⟨18, 70, 1, 19⟩ ∧
      SliceParses functionOfImpl 8 Cursor.definition
        ⟨18, 70, 1, 19⟩
        (.function
          (g.mapSpans
            (Relocation.within ⟨18, 70, 1, 19⟩).span)) := by
  have hRuns :
      (SourceFile.parse functionOfImpl 8).toOption.map
          (fun f =>
            (f.nodes.filter
              (fun n => n.sort = "function")).map
                Node.span) =
        some [⟨18, 70, 1, 19⟩] := by
    decide +kernel
  cases hParse : SourceFile.parse functionOfImpl 8 with
  | error e =>
      rw [hParse] at hRuns
      cases hRuns
  | ok f =>
      rw [hParse] at hRuns
      rcases List.map_eq_singleton_iff.mp
          (Option.some.inj hRuns) with
        ⟨n, hFilter, hSpan⟩
      have hMem :
          n ∈ f.nodes.filter fun n => n.sort = "function" :=
        by rw [hFilter]; exact List.mem_singleton_self n
      rcases List.mem_filter.mp hMem with ⟨hNode, hSort⟩
      cases n with
      | function g =>
          have hSame : g.span = ⟨18, 70, 1, 19⟩ := hSpan
          have hAgain :=
            (nodes_parse_again hParse).2.1 g hNode
          rw [hSame] at hAgain
          exact ⟨f, g, rfl, hNode, hSame, hAgain⟩
      | _ => simp [Node.sort] at hSort

end SourceFile

end FeSyntax
