import FeSyntax.Proofs.Lexing.Position
import FeSyntax.Proofs.Parsing.CursorRun
import FeSyntax.Proofs.Parsing.OwnershipDefinition

/-
  This file proves that all positions that a cursor tells of
  are true ones.  Whatever was asked before, the nodes of a
  piece and the comments of a file have the lines and the
  columns of their starts, and an error has those of a token
  of the text.

  Key definitions include:
    * `Parsed.nodes`
    * `Parsed.outlines`

  Key theorems include:
    * `Cursor.ownsAll_of_call`
    * `Cursor.Consistent.isPosition_of_mem_nodes`
    * `Cursor.Consistent.current_mem_tokenize`
    * `Cursor.answers_true_positions`
-/

namespace FeSyntax

------------------------------------------------------------
-- Nodes Of Pieces
------------------------------------------------------------

namespace Parsed

/-
  The nodes of what was parsed, but for the node of a file,
  which stands for the whole text.
-/
def nodes : Parsed → List Node
  | sourceFile f => f.nodes.tail
  | definition d => d.outline.nodes
  | ty t => t.outline.nodes
  | expression e => e.outline.nodes
  | pattern p => p.outline.nodes

/- The outlines that these nodes are the nodes of. -/
def outlines : Parsed → List Outline
  | sourceFile f => f.definitions.map Definition.outline
  | definition d => [d.outline]
  | ty t => [t.outline]
  | expression e => [e.outline]
  | pattern p => [p.outline]

theorem nodes_eq_walkAll
    (v : Parsed) :
    v.nodes =
      Outline.walkAll (fun _ => true) v.outlines := by
  cases v with
  | sourceFile f =>
      rw [outlines, ← Module.outlineDefinitions_eq]
      simp [nodes, SourceFile.nodes, SourceFile.outline,
        Outline.nodes, Outline.walk]
  | _ =>
      simp only [nodes, outlines, Outline.nodes,
        Outline.walkAll, List.append_nil]

end Parsed

------------------------------------------------------------
-- Calls
------------------------------------------------------------

namespace Cursor

section Steps

variable {source : String}
variable {limit : Nat}
variable {results : List CallResult}
variable {c : Cursor}
variable {piece : Piece}
variable {v : Parsed}

/- A part that was parsed owns tokens in front of the rest. -/
theorem ownsAll_of_run
    {α : Type}
    {p : Nat → Parser α}
    {outline : α → Outline}
    {wrap : α → Parsed}
    (hUses :
      (p c.limit).Uses fun a run => (outline a).Owns run)
    (hWrap : ∀ a, (wrap a).outlines = [outline a])
    (hCall :
      ((c.run p).map (Except.map wrap) id).1 = .ok v) :
    Outline.OwnsAll v.outlines c.rest := by
  rw [run] at hCall
  cases hRun : p c.limit c.rest with
  | stopped fault rest =>
      rw [hRun] at hCall
      cases hCall
  | done a rest =>
      rw [hRun] at hCall
      cases hCall
      rcases hUses hRun with ⟨used, hTokens, hOwns⟩
      rw [hWrap, hTokens]
      exact (Outline.OwnsAll.single hOwns).extend rest

/- What a call gives owns tokens that were left. -/
theorem ownsAll_of_call
    (hCall : (c.call piece).1 = .ok v) :
    Outline.OwnsAll v.outlines c.rest := by
  cases piece with
  | sourceFile =>
      rw [call, sourceFile, run] at hCall
      cases hRun : Parser.definitions c.limit c.rest with
      | stopped fault rest =>
          rw [hRun] at hCall
          cases hCall
      | done ds rest =>
          rw [hRun] at hCall
          cases hCall
          exact Parser.ownsAll_of_definitions hRun
  | definition =>
      exact ownsAll_of_run (Parser.definition_uses _)
        (fun _ => rfl) hCall
  | ty =>
      exact ownsAll_of_run (Parser.ty_uses _)
        (fun _ => rfl) hCall
  | expression =>
      exact ownsAll_of_run (Parser.expression_uses _)
        (fun _ => rfl) hCall
  | pattern =>
      exact ownsAll_of_run (Parser.pattern_uses _)
        (fun _ => rfl) hCall

/- A node has the position of its first token. -/
theorem Consistent.isPosition_of_mem_nodes
    (hCursor : c.Consistent source limit results)
    (hCall : (c.call piece).1 = .ok v)
    {n : Node}
    (hMem : n ∈ v.nodes) :
    IsPosition source n.span.start n.span.line
      n.span.column := by
  rw [v.nodes_eq_walkAll] at hMem
  rcases Outline.OwnsAll.exists_run _ (ownsAll_of_call hCall)
      hMem with
    ⟨run, hInfix, hNode⟩
  rcases hNode.span.starts with
    ⟨first, hFirst, hStart, hLine, hColumn⟩
  have hToken : first ∈ significantTokens source :=
    hCursor.rest.subset
      (hInfix.subset (List.mem_of_head? hFirst))
  rw [hStart, hLine, hColumn]
  exact isPosition_of_mem_tokenize
    (mem_tokenize_of_mem_significantTokens hToken).1

/- A comment has the position of its token. -/
theorem Consistent.isPosition_of_mem_comments
    (hCursor : c.Consistent source limit results)
    {comment : Comment}
    (hMem : comment ∈ c.comments) :
    IsPosition source comment.span.start comment.span.line
      comment.span.column := by
  rw [hCursor.comments] at hMem
  split at hMem
  · cases hMem
  · rcases List.mem_map.mp hMem with ⟨t, hToken, rfl⟩
    exact isPosition_of_mem_tokenize
      (List.mem_of_mem_filter hToken)

/- The token that a cursor stands at is one of its text. -/
theorem Consistent.current_mem_tokenize
    (hCursor : c.Consistent source limit results) :
    c.current ∈ tokenize source :=
  List.mem_of_mem_filter
    (List.mem_of_getElem? hCursor.getElem?_position)

end Steps

end Cursor

/- An error that has a position has that of its token. -/
theorem SyntaxError.Describes.position_eq
    {limit line column : Nat}
    {t : Token}
    {e : SyntaxError}
    (hError : e.Describes limit t)
    (hPosition : e.position? = some (line, column)) :
    t.span.line = line ∧ t.span.column = column := by
  cases e with
  | unexpectedEnd expected => cases hPosition
  | unexpectedToken expected got l c =>
      rcases hError with ⟨-, -, -, hLine, hColumn⟩
      cases hPosition
      exact ⟨hLine.symm, hColumn.symm⟩
  | invalidToken cause l c =>
      rcases hError with ⟨-, hLine, hColumn⟩
      cases hPosition
      exact ⟨hLine.symm, hColumn.symm⟩
  | nestingTooDeep n l c =>
      rcases hError with ⟨-, hLine, hColumn⟩
      cases hPosition
      exact ⟨hLine.symm, hColumn.symm⟩

namespace Cursor

/-
  All positions that are told are true.  Every token of a
  text has the line and the column of its start.  Behind any
  calls, failures included, so has every node that one more
  call gives, and every comment of a file, and an error that
  has a position has that of a token of the text.
-/
theorem answers_true_positions
    (source : String)
    (limit : Nat)
    (earlier : List Piece)
    (piece : Piece) :
    let before := (ofString source limit).callAll earlier
    let answer := (before.2.call piece).1
    (∀ t ∈ tokenize source,
      IsPosition source t.span.start t.span.line
        t.span.column) ∧
    (∀ v, answer = .ok v →
      ∀ n ∈ v.nodes,
        IsPosition source n.span.start n.span.line
          n.span.column) ∧
    (∀ f, answer = .ok (.sourceFile f) →
      ∀ comment ∈ f.comments,
        IsPosition source comment.span.start
          comment.span.line comment.span.column) ∧
    ∀ e line column,
      answer = .error e →
      e.position? = some (line, column) →
      ∃ t ∈ tokenize source,
        t.span.line = line ∧ t.span.column = column ∧
          IsPosition source t.span.start line column := by
  intro before answer
  have hBefore :
      before.2.Consistent source limit before.1 :=
    (consistent_ofString source limit).callAll earlier
  have hStep :
      CallStep before.2 piece answer
        (before.2.call piece).2 :=
    callStep_call before.2 piece
  have hAfter := hBefore.step hStep
  refine
    ⟨fun t hMem => isPosition_of_mem_tokenize hMem,
      fun v hOk n hMem =>
        hBefore.isPosition_of_mem_nodes hOk hMem, ?_, ?_⟩
  · intro f hFile comment hMem
    rw [hFile] at hStep
    rw [hStep.comments_eq] at hMem
    exact hBefore.isPosition_of_mem_comments hMem
  · intro e line column hError hPosition
    rw [hError] at hStep
    rcases hStep.describes.position_eq hPosition with
      ⟨rfl, rfl⟩
    have hToken := hAfter.current_mem_tokenize
    exact
      ⟨_, hToken, rfl, rfl,
        isPosition_of_mem_tokenize hToken⟩

end Cursor

end FeSyntax
