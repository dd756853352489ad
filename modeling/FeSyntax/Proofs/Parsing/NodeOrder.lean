import FeSyntax.Proofs.Parsing.Source
import FeSyntax.Proofs.Syntax.Parts
import Mathlib.Data.List.Nodup

/-
  This file proves in which order a walk lists the nodes of
  a file that was parsed.  A later node starts behind an
  earlier one, or it is below that and starts no earlier.
  So no node is listed twice, and nodes without parts start
  at different places, in the order of the walk.

  Key definitions include:
    * `Rising`
    * `Node.Precedes`

  Key theorems include:
    * `Node.precedes_all`
    * `SourceFile.precedes_nodes`
    * `SourceFile.nodup_nodes`
    * `SourceFile.eq_of_start_eq`
    * `SourceFile.visited_rising`
-/

namespace FeSyntax

------------------------------------------------------------
-- Places Of Owners
------------------------------------------------------------

/- Every token starts behind where those before it start. -/
def Rising
    (ts : List Token) : Prop :=
  ts.Pairwise (fun t u => t.span.start < u.span.start)

/- The significant tokens start one behind the other. -/
theorem rising_significantTokens
    (source : String) :
    Rising (significantTokens source) := by
  refine
    (ordered_significantTokens source).imp_of_mem ?_
  intro t u hFirst _ hOrder
  exact Nat.lt_of_lt_of_le
    (start_lt_stop_of_mem_significantTokens hFirst) hOrder

section Owners

variable {run : List Token}
variable {n : Node}

/- A node starts where one of its tokens does. -/
theorem Node.Covers.exists_start
    (hCovers : n.Covers run) :
    ∃ t ∈ run, n.span.start = t.span.start := by
  rcases hCovers.span.starts with ⟨t, hFirst, hStart, -⟩
  exact ⟨t, List.mem_of_head? hFirst, hStart⟩

/- No token of a run starts before its owner. -/
theorem Node.Covers.start_le
    {t : Token}
    (hCovers : n.Covers run)
    (hRising : Rising run)
    (hMem : t ∈ run) :
    n.span.start ≤ t.span.start := by
  rcases hCovers.span.starts with
    ⟨first, hFirst, hStart, -⟩
  rw [hStart]
  cases run with
  | nil => cases hFirst
  | cons u run =>
      cases hFirst
      rcases List.mem_cons.mp hMem with rfl | hLater
      · exact Nat.le_refl _
      · exact Nat.le_of_lt
          ((List.pairwise_cons.mp hRising).1 t hLater)

/- The nodes of an owner start at tokens of its run. -/
theorem Outline.Owns.exists_start
    {o : Outline}
    (hOwns : o.Owns run)
    (hMem : n ∈ o.nodes) :
    ∃ t ∈ run, n.span.start = t.span.start := by
  rcases hOwns.exists_run o hMem with ⟨part, hPart, hCovers⟩
  rcases hCovers.exists_start with ⟨t, hToken, hStart⟩
  exact ⟨t, hPart.subset hToken, hStart⟩

/- The nodes of owners in turn cover parts of the run. -/
theorem Outline.OwnsAll.exists_run_flatMap
    {ps : List Node}
    (hAll : OwnsAll (ps.map Node.outline) run)
    (hMem : n ∈ ps.flatMap Node.all) :
    ∃ part, part <:+: run ∧ n.Covers part := by
  have hWalk :
      n ∈ walkAll (fun _ => true)
        (ps.map Node.outline) := by
    rw [walkAll_eq_flatMap, List.flatMap_map]
    exact hMem
  exact hAll.exists_run _ hWalk

/- So does every node among parts in a row. -/
theorem Outline.OwnsAll.exists_start
    {ps : List Node}
    (hAll : OwnsAll (ps.map Node.outline) run)
    (hMem : n ∈ ps.flatMap Node.all) :
    ∃ t ∈ run, n.span.start = t.span.start := by
  rcases hAll.exists_run_flatMap hMem with
    ⟨part, hPart, hCovers⟩
  rcases hCovers.exists_start with ⟨t, hToken, hStart⟩
  exact ⟨t, hPart.subset hToken, hStart⟩

end Owners

------------------------------------------------------------
-- Order Of Nodes
------------------------------------------------------------

namespace Node

/-
  A node starts before another one, or the other one is
  below it and does not start before it.
-/
def Precedes
    (n m : Node) : Prop :=
  n.span.start < m.span.start ∨
    m ∈ n.below ∧ n.span.start ≤ m.span.start

variable {n m : Node}

theorem Precedes.start_le
    (hOrder : n.Precedes m) :
    n.span.start ≤ m.span.start := by
  rcases hOrder with hBefore | ⟨-, hStart⟩
  · exact Nat.le_of_lt hBefore
  · exact hStart

theorem Precedes.ne
    (hOrder : n.Precedes m) :
    n ≠ m := by
  rintro rfl
  rcases hOrder with hBefore | ⟨hBelow, -⟩
  · exact Nat.lt_irrefl _ hBefore
  · exact not_mem_below n hBelow

/- Nothing is below a node that has no parts. -/
theorem Precedes.start_lt
    (hOrder : n.Precedes m)
    (hLeaf : n.parts = []) :
    n.span.start < m.span.start := by
  rcases hOrder with hBefore | ⟨hBelow, -⟩
  · exact hBefore
  · rw [below, hLeaf] at hBelow
    cases hBelow

/-
  Owners of parts of a run, one behind the other, keep the
  order that is known of each of them.
-/
theorem precedes_flatMap
    {ps : List Node}
    {run : List Token}
    (hEach :
      ∀ p ∈ ps, ∀ own,
        p.outline.Owns own → Rising own →
        p.all.Pairwise Precedes)
    (hAll : Outline.OwnsAll (ps.map outline) run)
    (hRising : Rising run) :
    (ps.flatMap all).Pairwise Precedes := by
  induction ps generalizing run with
  | nil => exact .nil
  | cons p ps ih =>
      rcases List.forall_mem_cons.mp hEach with
        ⟨hFirst, hLater⟩
      rcases hAll with _ | ⟨hOwn, hRest⟩
      rcases List.pairwise_append.mp hRising with
        ⟨hFront, hBehind, hBetween⟩
      rcases List.pairwise_append.mp hFront with
        ⟨-, hOwnRising, -⟩
      rw [List.flatMap_cons]
      refine List.pairwise_append.mpr
        ⟨hFirst _ hOwn hOwnRising,
          ih hLater hRest hBehind, ?_⟩
      intro n hNode m hOther
      rcases hOwn.exists_start hNode with ⟨t, hMem, hStart⟩
      rcases hRest.exists_start hOther with
        ⟨u, hMem', hStart'⟩
      refine .inl ?_
      rw [hStart, hStart']
      exact hBetween t (List.mem_append_right _ hMem) u
        hMem'

/- An owner precedes all nodes below it. -/
theorem precedes_all
    (n : Node)
    (run : List Token)
    (hOwns : n.outline.Owns run)
    (hRising : Rising run) :
    n.all.Pairwise Precedes := by
  induction n using induction generalizing run with
  | step n ih =>
      rw [outline_eq] at hOwns
      rcases hOwns with ⟨hCovers, hChildren⟩
      rw [all_eq]
      refine List.pairwise_cons.mpr ⟨?_, ?_⟩
      · intro m hBelow
        rcases hChildren.exists_start hBelow with
          ⟨t, hMem, hStart⟩
        refine .inr ⟨hBelow, ?_⟩
        rw [hStart]
        exact hCovers.start_le hRising hMem
      · exact precedes_flatMap ih hChildren hRising

end Node

------------------------------------------------------------
-- Source Files
------------------------------------------------------------

namespace SourceFile

variable {source : String}
variable {limit : Nat}
variable {f : SourceFile}
variable (hParse : SourceFile.parse source limit = .ok f)

include hParse

/- The parts of the file own all tokens in order. -/
theorem ownsAll_parts :
    Outline.OwnsAll
      ((Node.sourceFile f).parts.map Node.outline)
      (significantTokens source) := by
  rcases parse_eq_ok_iff.mp hParse with ⟨rest, hRun, -⟩
  rw [Node.parts, List.map_map]
  exact Parser.ownsAll_of_definitions hRun

/- Every node below the file covers a run of tokens. -/
theorem exists_run
    {n : Node}
    (hBelow : n ∈ (Node.sourceFile f).below) :
    ∃ run, run <:+: significantTokens source ∧
      n.Covers run :=
  (ownsAll_parts hParse).exists_run_flatMap hBelow

/- Each node precedes those that are visited behind it. -/
theorem precedes_nodes :
    f.nodes.Pairwise Node.Precedes := by
  rcases parse_eq_ok_iff.mp hParse with ⟨rest, -, -, hSpan⟩
  have hStart : (Node.sourceFile f).span.start = 0 := by
    rw [Node.span, hSpan]
  have hNodes : f.nodes = (Node.sourceFile f).all := rfl
  rw [hNodes, Node.all_eq]
  refine List.pairwise_cons.mpr ⟨?_, ?_⟩
  · intro m hBelow
    refine .inr ⟨hBelow, ?_⟩
    rw [hStart]
    exact Nat.zero_le _
  · exact Node.precedes_flatMap
      (fun p _ => p.precedes_all) (ownsAll_parts hParse)
      (rising_significantTokens source)

/- A walk lists no node twice. -/
theorem nodup_nodes :
    f.nodes.Nodup :=
  (precedes_nodes hParse).imp Node.Precedes.ne

theorem starts_nodes :
    f.nodes.Pairwise fun n m =>
      n.span.start ≤ m.span.start :=
  (precedes_nodes hParse).imp Node.Precedes.start_le

/- Nodes without parts start at different places. -/
theorem nodup_starts_leaves :
    ((f.nodes.filter (fun n => n.parts.isEmpty)).map
      (fun n => n.span.start)).Nodup := by
  refine List.pairwise_map.mpr ?_
  refine
    ((precedes_nodes hParse).sublist
      List.filter_sublist).imp_of_mem ?_
  intro n m hMem _ hOrder
  have hLeaf := (List.mem_filter.mp hMem).2
  exact Nat.ne_of_lt
    (hOrder.start_lt (List.isEmpty_iff.mp hLeaf))

/- Nodes without parts that start together are the same. -/
theorem eq_of_start_eq
    {n m : Node}
    (hFirst : n ∈ f.nodes)
    (hSecond : m ∈ f.nodes)
    (hLeaf : n.parts = [])
    (hLeaf' : m.parts = [])
    (hStart : n.span.start = m.span.start) :
    n = m := by
  refine
    List.inj_on_of_nodup_map (nodup_starts_leaves hParse)
      (List.mem_filter.mpr ⟨hFirst, ?_⟩)
      (List.mem_filter.mpr ⟨hSecond, ?_⟩) hStart
  · exact List.isEmpty_iff.mpr hLeaf
  · exact List.isEmpty_iff.mpr hLeaf'

/- What is seen of leaves starts one behind the other. -/
theorem visited_rising
    {α : Type}
    {sees : Node → Option α}
    {span : α → Span}
    (hLeaf : ∀ n, (sees n).isSome → n.parts = [])
    (hSpan : ∀ n a, sees n = some a → span a = n.span) :
    (f.visited sees).Pairwise fun a b =>
      (span a).start < (span b).start := by
  rw [visited_eq hLeaf, List.pairwise_filterMap]
  refine (precedes_nodes hParse).imp ?_
  intro n m hOrder a hFirst b hSecond
  rw [hSpan n a hFirst, hSpan m b hSecond]
  refine hOrder.start_lt (hLeaf n ?_)
  rw [hFirst]
  rfl

end SourceFile

end FeSyntax
