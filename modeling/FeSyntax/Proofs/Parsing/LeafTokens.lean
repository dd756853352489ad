import FeSyntax.Proofs.Parsing.NodeOrder
import FeSyntax.Proofs.Parsing.RereadDefinition
import FeSyntax.Proofs.Parsing.Soundness
import FeSyntax.Proofs.Syntax.LeafKinds
import Mathlib.Data.List.Perm.Subperm

/-
  This file matches the tokens of a text with the leaves of
  the file that is parsed from it.  Every leaf is a token of
  the text.  A token that is no mark and no keyword is a
  leaf: there are as many such tokens as there are leaves of
  their kinds, and no two leaves are the same token.

  Key definitions include:
    * `Node.isPlainLeaf`

  Key theorems include:
    * `SourceFile.exists_leafToken`
    * `SourceFile.length_plainLeaves`
    * `SourceFile.exists_leaf_of_token`
-/

namespace FeSyntax

------------------------------------------------------------
-- Tokens That Are Values
------------------------------------------------------------

/- A span that covers one token is the span of the token. -/
theorem Span.Encloses.eq_span
    {s : Span}
    {t : Token}
    (hSpan : s.Encloses [t]) :
    t.span = s := by
  rcases s with ⟨start, stop, line, column⟩
  rcases hSpan with
    ⟨⟨first, hFirst, hStart, hLine, hColumn⟩,
      ⟨last, hLast, hStop⟩⟩
  cases hFirst
  cases hLast
  cases hStart
  cases hStop
  cases hLine
  cases hColumn
  rfl

section Tokens

variable {all : List Token}
variable {span : Span}
variable {kind : TokenKind}

theorem exists_token_of_run
    {run : List Token}
    (hRun : run <:+: all)
    (hSpan : span.Encloses run)
    (hKind : run.map Token.kind = [kind]) :
    ∃ t ∈ all, t.span = span ∧ t.kind = kind := by
  rcases List.map_eq_singleton_iff.mp hKind with
    ⟨t, rfl, rfl⟩
  exact
    ⟨t, hRun.subset (List.mem_singleton_self t),
      hSpan.eq_span, rfl⟩

/- What can only be written as one token is a token. -/
theorem Parser.ReadsAgain.exists_token
    {α : Type}
    [Placed α]
    {p : Parser α}
    {spellings : α → Language TokenKind}
    {good : α → Prop}
    {a : α}
    (hAgain : p.ReadsAgain all span a)
    (hSound : p.Sound spellings good)
    (hSpelled :
      ∀ r, spellings (Placed.move r a) = kind.written)
    (hLexed : Lexed all) :
    ∃ t ∈ all, t.span = span ∧ t.kind = kind := by
  let r : Relocation := ⟨id, fun _ _ => rfl⟩
  rcases hAgain with ⟨run, hRun, hSpan, hRead⟩
  have hLexed : Lexed (run.map r.token) := by
    intro t hMem
    rcases List.mem_map.mp hMem with ⟨u, hToken, rfl⟩
    exact hLexed u (hRun.subset hToken)
  have hReads := (hSound hLexed (hRead r)).1
  rw [hSpelled, reads_nil_iff, List.map_map] at hReads
  exact exists_token_of_run hRun hSpan
    (TokenKind.mem_written_iff.mp hReads)

/- Tokens that start at the same place are the same. -/
theorem Rising.eq_of_start_eq
    {t u : Token}
    (hRising : Rising all)
    (hFirst : t ∈ all)
    (hSecond : u ∈ all)
    (hStart : t.span.start = u.span.start) :
    t = u := by
  have hStarts :
      (all.map (fun t => t.span.start)).Nodup :=
    List.pairwise_map.mpr (hRising.imp Nat.ne_of_lt)
  exact
    List.inj_on_of_nodup_map hStarts hFirst hSecond hStart

end Tokens

------------------------------------------------------------
-- Leaves
------------------------------------------------------------

namespace Node

/- A leaf whose kind is not that of a frame. -/
def isPlainLeaf
    (n : Node) : Bool :=
  n.leafKind?.any (fun kind => !kind.isFrame)

theorem parts_of_leafKind?
    {n : Node}
    {kind : TokenKind}
    (hKind : n.leafKind? = some kind) :
    n.parts = [] := by
  cases n with
  | identifier i => rfl
  | literal l => rfl
  | ty t =>
      cases t with
      | primitive k span => rfl
      | _ => cases hKind
  | pattern p =>
      cases p with
      | wildcard span => rfl
      | _ => cases hKind
  | _ => cases hKind

/- A literal is part of an expression or of a pattern. -/
theorem eq_of_literal_mem_parts
    {p : Node}
    {l : Literal}
    (hPart : literal l ∈ p.parts) :
    p = expression (.literal l) ∨
      p = pattern (.literal l) := by
  cases p with
  | definition d => cases d <;> simp [parts] at hPart
  | ty t => cases t <;> simp [parts] at hPart
  | statement s => cases s <;> simp [parts] at hPart
  | expression e => cases e <;> simp_all [parts]
  | pattern p => cases p <;> simp_all [parts]
  | _ => simp [parts] at hPart

/- The leaves of other kinds than frames, one for each. -/
theorem length_unframed_leafKinds
    (ns : List Node) :
    (TokenKind.unframed (ns.filterMap leafKind?)).length =
      (ns.filter isPlainLeaf).length := by
  induction ns with
  | nil => rfl
  | cons n ns ih =>
      rw [TokenKind.unframed] at ih ⊢
      cases hKind : n.leafKind? with
      | none =>
          have hNot : n.isPlainLeaf ≠ true := by
            simp [isPlainLeaf, hKind]
          rw [List.filterMap_cons_none hKind, ih,
            List.filter_cons_of_neg hNot]
      | some kind =>
          have hPlain : n.isPlainLeaf = !kind.isFrame := by
            simp [isPlainLeaf, hKind]
          rw [List.filterMap_cons_some hKind,
            List.filter_cons, List.filter_cons, hPlain]
          cases kind.isFrame <;> simp [ih]

end Node

namespace SourceFile

variable {source : String}
variable {limit : Nat}
variable {f : SourceFile}
variable (hParse : SourceFile.parse source limit = .ok f)

include hParse

theorem readsAgain_outline :
    f.outline.ReadsAgain limit
      (significantTokens source) := by
  rcases parse_eq_ok_iff.mp hParse with ⟨rest, hRun, -⟩
  rw [outline, Outline.readsAgain_node,
    Module.outlineDefinitions_eq]
  refine ⟨trivial, fun o hMem => ?_⟩
  rcases List.mem_map.mp hMem with ⟨d, hDefinition, rfl⟩
  exact Parser.definitions_give hRun d hDefinition

/- Every leaf is a token of the text. -/
theorem exists_leafToken
    {n : Node}
    {kind : TokenKind}
    (hMem : n ∈ f.nodes)
    (hKind : n.leafKind? = some kind) :
    ∃ t ∈ significantTokens source,
      t.span = n.span ∧ t.kind = kind := by
  have hLexed := lexed_significantTokens source
  have hAgain := readsAgain_outline hParse
  have hBelow : n ∈ (Node.sourceFile f).below := by
    have hAll : n ∈ (Node.sourceFile f).all := hMem
    rw [Node.all_eq] at hAll
    rcases List.mem_cons.mp hAll with rfl | hBelow
    · cases hKind
    · exact hBelow
  cases n with
  | identifier i =>
      cases hKind
      rcases exists_run hParse hBelow with
        ⟨run, hRun, hCovers⟩
      refine exists_token_of_run hRun hCovers.span ?_
      rcases List.map_eq_singleton_iff.mp
          (hCovers.name i rfl) with
        ⟨t, rfl, hWord⟩
      have hToken := hRun.subset (List.mem_singleton_self t)
      rw [← hLexed t hToken i.name hWord]
      rfl
  | literal l =>
      cases hKind
      rcases Node.exists_parent hBelow with
        ⟨p, hParent, hPart⟩
      have hReads := hAgain p hParent
      rcases Node.eq_of_literal_mem_parts hPart with
        rfl | rfl
      · exact hReads.exists_token
          (Parser.expression_sound limit) (fun _ => rfl)
          hLexed
      · exact hReads.exists_token
          (Parser.pattern_sound limit) (fun _ => rfl) hLexed
  | ty t =>
      have hReads := hAgain _ hMem
      cases t with
      | primitive k span =>
          cases hKind
          exact hReads.exists_token (Parser.ty_sound limit)
            (fun _ => rfl) hLexed
      | _ => cases hKind
  | pattern p =>
      have hReads := hAgain _ hMem
      cases p with
      | wildcard span =>
          cases hKind
          exact hReads.exists_token
            (Parser.pattern_sound limit) (fun _ => rfl)
            hLexed
      | _ => cases hKind
  | _ => cases hKind

/-
  There are as many tokens that are no frame as there are
  leaves of such kinds: both are what the spelling shows.
-/
theorem length_plainLeaves :
    ((significantTokens source).filter
        (fun t => !t.kind.isFrame)).length =
      (f.nodes.filter Node.isPlainLeaf).length := by
  have hSpelled := (reads_of_parse hParse).1
  have hShown :=
    (Node.sourceFile f).isShown _ hSpelled
  have hLength := congrArg List.length hShown
  rw [Node.leafKinds, Node.length_unframed_leafKinds,
    significantKinds, TokenKind.unframed, List.filter_map,
    List.length_map] at hLength
  exact hLength

/- Every plain leaf is a token that is no frame. -/
theorem exists_token_of_plainLeaf
    {n : Node}
    (hLeaf : n ∈ f.nodes.filter Node.isPlainLeaf) :
    ∃ t ∈ (significantTokens source).filter
        (fun t => !t.kind.isFrame),
      t.span = n.span ∧ n.leafKind? = some t.kind := by
  rcases List.mem_filter.mp hLeaf with ⟨hMem, hPlain⟩
  cases hKind : n.leafKind? with
  | none =>
      rw [Node.isPlainLeaf, hKind] at hPlain
      cases hPlain
  | some kind =>
      rw [Node.isPlainLeaf, hKind] at hPlain
      rcases exists_leafToken hParse hMem hKind with
        ⟨t, hToken, hSpan, rfl⟩
      exact
        ⟨t, List.mem_filter.mpr ⟨hToken, hPlain⟩, hSpan,
          rfl⟩

/- No two leaves start at the same place. -/
theorem nodup_starts_plainLeaves :
    ((f.nodes.filter Node.isPlainLeaf).map
      (fun n => n.span.start)).Nodup := by
  refine List.Nodup.map_on ?_ ((nodup_nodes hParse).filter _)
  intro n hFirst m hSecond hStart
  rcases exists_token_of_plainLeaf hParse hFirst with
    ⟨_, -, -, hKind⟩
  rcases exists_token_of_plainLeaf hParse hSecond with
    ⟨_, -, -, hKind'⟩
  exact
    eq_of_start_eq hParse (List.mem_of_mem_filter hFirst)
      (List.mem_of_mem_filter hSecond)
      (Node.parts_of_leafKind? hKind)
      (Node.parts_of_leafKind? hKind') hStart

/- The token that starts where a leaf starts is the leaf. -/
theorem span_eq_and_kind_eq_of_leaf
    {n : Node}
    {kind : TokenKind}
    {t : Token}
    (hNode : n ∈ f.nodes)
    (hKind : n.leafKind? = some kind)
    (hMem : t ∈ significantTokens source)
    (hStart : n.span.start = t.span.start) :
    n.span = t.span ∧ t.kind = kind := by
  rcases exists_leafToken hParse hNode hKind with
    ⟨u, hOther, hSpan, hSame⟩
  rw [← hSpan] at hStart
  have hEqual :=
    (rising_significantTokens source).eq_of_start_eq hOther
      hMem hStart
  rw [← hEqual]
  exact ⟨hSpan.symm, hSame⟩

/-
  A token that is no frame is a leaf of the file: all such
  tokens are used up by the leaves, since there are no more
  of them.
-/
theorem exists_leaf_of_token
    {t : Token}
    (hMem : t ∈ significantTokens source)
    (hFrame : t.kind.isFrame = false) :
    ∃ n ∈ f.nodes,
      n.span = t.span ∧ n.leafKind? = some t.kind := by
  have hToken :
      t ∈ (significantTokens source).filter
        (fun t => !t.kind.isFrame) :=
    List.mem_filter.mpr ⟨hMem, by rw [hFrame]; rfl⟩
  have hSubset :
      (f.nodes.filter Node.isPlainLeaf).map
          (fun n => n.span.start) ⊆
        ((significantTokens source).filter
          (fun t => !t.kind.isFrame)).map
            (fun t => t.span.start) := by
    intro start hStart
    rcases List.mem_map.mp hStart with ⟨n, hLeaf, rfl⟩
    rcases exists_token_of_plainLeaf hParse hLeaf with
      ⟨u, hOther, hSpan, -⟩
    exact List.mem_map.mpr ⟨u, hOther, by rw [hSpan]⟩
  have hSame :=
    ((nodup_starts_plainLeaves hParse).subperm
      hSubset).perm_of_length_le (by
        rw [List.length_map, List.length_map,
          length_plainLeaves hParse])
  rcases List.mem_map.mp
      (hSame.mem_iff.mpr (List.mem_map_of_mem hToken)) with
    ⟨n, hLeaf, hStart⟩
  have hNode := List.mem_of_mem_filter hLeaf
  rcases exists_token_of_plainLeaf hParse hLeaf with
    ⟨u, -, -, hKind⟩
  rcases span_eq_and_kind_eq_of_leaf hParse hNode hKind hMem
      hStart with
    ⟨hSpan, hEqual⟩
  rw [hEqual]
  exact ⟨n, hNode, hSpan, hKind⟩

end SourceFile

end FeSyntax
