import FeSyntax.Proofs.Lexing.Relocated
import FeSyntax.Proofs.Parsing.CorrespondDefinition
import FeSyntax.Proofs.Parsing.Failure
import FeSyntax.Proofs.Parsing.ReplayDefinition

/-
  This file proves that a text is parsed behind another one
  as it is parsed alone.  If the first text parses and a
  line feed stands between them, then all together gives the
  definitions and the comments of both, or fails with the
  error of the second one, which stands further down.

  Key definitions include:
    * `SyntaxError.down`

  Key theorems include:
    * `Parser.definitions_append`
    * `Parser.definitions_stopped`
    * `SourceFile.parse_append_lineFeed`
-/

namespace FeSyntax

------------------------------------------------------------
-- Definitions Behind Others
------------------------------------------------------------

namespace Parser

variable {n : Nat}
variable {ts rest : List Token}

/-
  Behind definitions, the parser of a file does what it does
  at the start of a file.
-/
theorem definitions_append
    {ds : List Definition}
    (hDone : definitions n ts = .done ds rest)
    (more : List Token) :
    definitions n (ts ++ more) =
      (definitions n more).map (ds ++ ·) := by
  have hParts :
      collect .definition (definitionStep n) (ts ++ more) =
        (collect .definition (definitionStep n) more).map
          fun parts => (ds ++ parts.1, parts.2) := by
    have hSteps := (definitions_eq_done.mp hDone).2
    clear hDone
    generalize () = last at hSteps
    induction hSteps with
    | last hStep =>
        rcases definitionStep_eq_done.mp hStep with
          ⟨-, _, -, hPart⟩ | ⟨rfl, -, -⟩
        · cases hPart
        · rw [List.nil_append]
          cases collect .definition (definitionStep n)
            more <;> rfl
    | @item ts mid _ d ds _ hStep _ ih =>
        rcases definitionStep_eq_done.mp hStep with
          ⟨hSome, _, hRun, hPart⟩ | ⟨-, -, hPart⟩
        · cases hPart
          have hItem :
              definitionStep n (ts ++ more) =
                .done (.inl d) (mid ++ more) :=
            definitionStep_eq_done.mpr
              (.inl
                ⟨by simp [hSome], d,
                  (definition_replays n).extend hRun more,
                  rfl⟩)
          rcases exists_collectWithin_of_item .definition
              ([] : List Definition)
              (ItemsAdvance.definitionStep n) hItem
              (Nat.le_refl _) with
            ⟨less, -, hEnough, hMore⟩
          rw [collect, hMore,
            collectWithin_eq_map
              (ItemsAdvance.definitionStep n) hEnough, ih]
          cases collect .definition (definitionStep n)
            more <;> rfl
        · cases hPart
  have hFile :
      definitions n =
        Prod.fst <$> collect .definition (definitionStep n) :=
    rfl
  rw [hFile, map_eq_map, map_eq_map, hParts]
  cases collect .definition (definitionStep n) more <;> rfl

/- Where tokens stand does not matter to where they fail. -/
theorem definitions_stopped
    {fault : Fault}
    (r : Relocation)
    (hLexed : Lexed ts)
    (hStopped : definitions n ts = .stopped fault rest) :
    definitions n (ts.map r.token) =
      .stopped fault (rest.map r.token) := by
  have hAligned :
      Aligned .identity (ts.length + 1) ts
        (ts.map r.token) := by
    refine ⟨hLexed, ?_⟩
    rw [← List.map_take, List.map_map,
      Renaming.kind_identity]
    rfl
  rcases definitions_corresponds n _ _ _ hAligned with
    ⟨used, hTokens, hAgree⟩
  rw [hStopped] at hTokens hAgree
  have hUsed : used.length < ts.length + 1 := by
    rw [hTokens, List.length_append]
    omega
  have hSame := hAgree hUsed
  cases hMoved : definitions n (ts.map r.token) with
  | done ds rest' =>
      rw [hMoved] at hSame
      cases hSame
  | stopped fault' rest' =>
      rw [hMoved] at hSame
      cases hSame with
      | stopped hRest =>
          -- What is left is the end that is equally long.
          have hLength : rest'.length = rest.length := by
            refine hRest.length_eq ?_
            rw [hTokens, List.length_append, Outcome.rest]
            omega
          rcases (definitions_passes n).stopped hMoved with
            ⟨_, ⟨used', hSplit, -⟩, -⟩
          rw [hTokens, List.map_append] at hSplit
          have hEnd :=
            List.append_inj_right' hSplit (by
              rw [List.length_map, Outcome.rest, hLength])
          rw [← hEnd]
          rfl

end Parser

------------------------------------------------------------
-- Tokens Further Down
------------------------------------------------------------

/- The error, shown as many lines further down. -/
def SyntaxError.down
    (lines : Nat) : SyntaxError → SyntaxError
  | unexpectedToken expected got line column =>
      unexpectedToken expected got (line + lines) column
  | unexpectedEnd expected => unexpectedEnd expected
  | invalidToken cause line column =>
      invalidToken cause (line + lines) column
  | nestingTooDeep limit line column =>
      nestingTooDeep limit (line + lines) column

/- A fault at a token that was put further down. -/
theorem SyntaxError.ofFault_down
    (bytes lines limit : Nat)
    (fault : Fault)
    (t : Token) :
    ofFault limit fault
        ((Relocation.down bytes lines).token t) =
      (ofFault limit fault t).down lines := by
  cases fault with
  | tooDeep => rfl
  | expected what =>
      rw [ofFault, ofFault, Relocation.token_kind]
      cases t.kind <;> rfl

namespace Cursor

/- The comments of two lists stand one behind the other. -/
theorem commentsOf_append
    (ts us : List Token) :
    commentsOf (ts ++ us) =
      commentsOf ts ++ commentsOf us := by
  simp [commentsOf]

theorem commentsOf_map_token
    (r : Relocation)
    (ts : List Token) :
    commentsOf (ts.map r.token) =
      (commentsOf ts).map (Comment.mapSpans r.span) := by
  rw [commentsOf, commentsOf, List.filter_map, List.map_map,
    List.map_map]
  rfl

end Cursor

------------------------------------------------------------
-- Tokens Of Both Texts
------------------------------------------------------------

section Texts

variable {a : String}
variable {limit : Nat}
variable {f : SourceFile}
variable (hParse : SourceFile.parse a limit = .ok f)
variable (b : String)

include hParse

/-
  The tokens of the second text stand behind those of the
  first one, which has no errors because it parses.
-/
theorem exists_tokenize_append_lineFeed :
    ∃ tokens p,
      tokenize a = tokens ++ [Scanner.endToken p] ∧
      tokenize (a ++ "\n" ++ b) =
        tokens ++
          (tokenize b).map
            (Relocation.down (a.utf8ByteSize + 1)
              (lineFeeds a + 1)).token := by
  rcases exists_tokenize_eq a with ⟨tokens, p, hTokens, -⟩
  have hNone : NoErrors tokens := by
    intro t hMem
    refine SourceFile.noErrors_of_parse hParse t ?_
    rw [hTokens]
    exact List.mem_append_left _ hMem
  exact
    ⟨tokens, p, hTokens,
      tokenize_append_lineFeed hTokens hNone b⟩

/-
  The significant tokens of the second text stand behind
  those of the first one, further down.
-/
theorem significantTokens_append_lineFeed :
    significantTokens (a ++ "\n" ++ b) =
      significantTokens a ++
        (significantTokens b).map
          (Relocation.down (a.utf8ByteSize + 1)
            (lineFeeds a + 1)).token := by
  rcases exists_tokenize_append_lineFeed hParse b with
    ⟨tokens, p, hTokens, hAll⟩
  rw [significantTokens, significantTokens,
    significantTokens, hAll, hTokens, List.filter_append,
    List.filter_append, List.filter_map]
  exact congrArg (· ++ _) (List.append_nil _).symm

theorem Cursor.commentsOf_append_lineFeed :
    commentsOf (tokenize (a ++ "\n" ++ b)) =
      commentsOf (tokenize a) ++
        (commentsOf (tokenize b)).map
          (Comment.mapSpans
            (Relocation.down (a.utf8ByteSize + 1)
              (lineFeeds a + 1)).span) := by
  rcases exists_tokenize_append_lineFeed hParse b with
    ⟨tokens, p, hTokens, hAll⟩
  rw [hAll, hTokens, commentsOf_append, commentsOf_append,
    commentsOf_map_token]
  exact congrArg (· ++ _) (List.append_nil _).symm

/-
  The end of the text is that of the second one, further
  down.
-/
theorem Cursor.stopOf_append_lineFeed :
    stopOf (tokenize (a ++ "\n" ++ b)) =
      (Relocation.down (a.utf8ByteSize + 1)
        (lineFeeds a + 1)).token (stopOf (tokenize b)) := by
  rcases exists_tokenize_append_lineFeed hParse b with
    ⟨tokens, p, -, hAll⟩
  rcases exists_tokenize_eq b with ⟨more, q, hMore, -⟩
  rw [hAll, hMore, stopOf, stopOf, List.map_append,
    List.map_singleton, ← List.append_assoc,
    List.getLastD_concat, List.getLastD_concat]

end Texts

------------------------------------------------------------
-- Files One Behind The Other
------------------------------------------------------------

namespace SourceFile

/-
  A text that parses, a line feed and any other text parse
  to the definitions and the comments of both if the other
  text parses, and fail with its error if that fails.  What
  comes from the other text stands as many bytes and lines
  further down as are in front of it.
-/
theorem parse_append_lineFeed
    {a : String}
    {limit : Nat}
    {f : SourceFile}
    (hParse : SourceFile.parse a limit = .ok f)
    (b : String) :
    let r :=
      Relocation.down (a.utf8ByteSize + 1) (lineFeeds a + 1)
    (∀ g, SourceFile.parse b limit = .ok g →
      SourceFile.parse (a ++ "\n" ++ b) limit =
        .ok
          { definitions :=
              f.definitions ++
                g.definitions.map
                  (Definition.mapSpans r.span)
            comments :=
              f.comments ++
                g.comments.map (Comment.mapSpans r.span)
            span :=
              ⟨0, (a ++ "\n" ++ b).utf8ByteSize, 1, 1⟩ }) ∧
    ∀ e, SourceFile.parse b limit = .error e →
      SourceFile.parse (a ++ "\n" ++ b) limit =
        .error (e.down (lineFeeds a + 1)) := by
  intro r
  rcases parse_eq_ok_iff.mp hParse with
    ⟨rest, hRun, hComments, -⟩
  -- The parser goes on behind the definitions of `a`.
  have hBoth :
      Parser.definitions limit
          (significantTokens (a ++ "\n" ++ b)) =
        (Parser.definitions limit
          ((significantTokens b).map r.token)).map
            (f.definitions ++ ·) := by
    rw [significantTokens_append_lineFeed hParse]
    exact Parser.definitions_append hRun _
  constructor
  · intro g hOther
    rcases parse_eq_ok_iff.mp hOther with
      ⟨rest', hRun', hComments', -⟩
    have hAll := Parser.rest_of_definitions hRun'
    subst hAll
    rcases Parser.definitions_replays (r := r) limit hRun'
      with ⟨run, hTokens, -, hMoved⟩
    have hDone := hMoved [] fun _ => .inl rfl
    rw [List.append_nil] at hTokens hDone
    rw [← hTokens] at hDone
    rw [hDone] at hBoth
    refine parse_eq_ok_iff.mpr ⟨[], hBoth, ?_, ?_⟩
    · rw [hComments, hComments']
      exact (Cursor.commentsOf_append_lineFeed hParse b).symm
    · rw [Cursor.span_stop_stopOf]
  · intro e hOther
    cases hRun' :
        Parser.definitions limit (significantTokens b) with
    | done ds rest' =>
        rcases sourceFile_of_done hRun' with ⟨_, _, hOk⟩
        rw [SourceFile.parse, hOk] at hOther
        cases hOther
    | stopped fault rest' =>
        rw [SourceFile.parse,
          sourceFile_of_stopped hRun'] at hOther
        cases hOther
        rw [Parser.definitions_stopped r
          (lexed_significantTokens b) hRun'] at hBoth
        rw [SourceFile.parse, sourceFile_of_stopped hBoth,
          Cursor.stopOf_append_lineFeed hParse]
        have hHead :
            (rest'.map r.token).headD
                (r.token (Cursor.stopOf (tokenize b))) =
              r.token
                (rest'.headD
                  (Cursor.stopOf (tokenize b))) := by
          cases rest' <;> rfl
        rw [hHead, SyntaxError.ofFault_down]

/- Three lines, the last of which is a line comment. -/
def endsInComment : String :=
  "/* é */ const x: u8 = 1;\n\n// é"

/- Two definitions, the second of which has no name. -/
def namelessType : String :=
  "type t = u8;\n  type = ;"

/-
  A comment at the end of the first text is kept apart from
  the second one.
-/
theorem parse_append_lineFeed_endsInComment :
    ∃ f g both,
      SourceFile.parse endsInComment 8 = .ok f ∧
      SourceFile.parse "trait T { }" 8 = .ok g ∧
      SourceFile.parse
          (endsInComment ++ "\n" ++ "trait T { }") 8 =
        .ok both ∧
      both.definitions =
        f.definitions ++
          g.definitions.map
            (Definition.mapSpans
              (Relocation.down 33 3).span) ∧
      SourceFile.parse
          (endsInComment ++ "\n" ++ namelessType) 8 =
        .error
          (.unexpectedToken .identifier (.punct .equals)
            5 8) := by
  have hSize : endsInComment.utf8ByteSize = 32 := by
    decide +kernel
  have hLines : lineFeeds endsInComment = 2 := by
    decide +kernel
  have hParses :
      ∀ source,
        (SourceFile.parse source 8).isOk = true →
          ∃ f, SourceFile.parse source 8 = .ok f := by
    intro source hOk
    cases hParse : SourceFile.parse source 8 with
    | ok f => exact ⟨f, rfl⟩
    | error e =>
        rw [hParse] at hOk
        cases hOk
  have hFails :
      (SourceFile.parse namelessType 8).map (fun _ => ()) =
        .error
          (.unexpectedToken .identifier (.punct .equals)
            2 8) := by
    decide +kernel
  rcases hParses endsInComment (by decide +kernel) with
    ⟨f, hFirst⟩
  rcases hParses "trait T { }" (by decide +kernel) with
    ⟨g, hSecond⟩
  have hBoth :=
    (parse_append_lineFeed hFirst "trait T { }").1 g hSecond
  rw [hSize, hLines] at hBoth
  refine ⟨f, g, _, hFirst, hSecond, hBoth, rfl, ?_⟩
  cases hThird : SourceFile.parse namelessType 8 with
  | ok h =>
      rw [hThird] at hFails
      cases hFails
  | error e =>
      rw [hThird] at hFails
      cases hFails
      have hError :=
        (parse_append_lineFeed hFirst namelessType).2 _ hThird
      rw [hLines] at hError
      exact hError

end SourceFile

end FeSyntax
