import FeSyntax.Proofs.Parsing.OwnershipDefinition
import Mathlib.Data.List.Basic
import Mathlib.Data.List.Flatten
import Mathlib.Logic.Relation

/-
  This file lists what every node of a syntax tree is made
  of, and compares that with walking through the tree.  The
  walk finds exactly the nodes that can be reached from the
  file by going to a part again and again.  It lists a node
  before its parts, and all nodes below it in one piece.

  Key definitions include:
    * `Node.parts`
    * `Node.outline`
    * `Node.all`
    * `Node.below`
    * `Node.Reaches`
    * `SourceFile.Has`
    * `SourceFile.visited`

  Key theorems include:
    * `Node.outline_eq`
    * `Node.induction`
    * `Node.mem_all_iff`
    * `Node.exists_parent`
    * `Node.all_infix_of_mem`
    * `Node.not_mem_below`
    * `SourceFile.mem_nodes_iff`
    * `SourceFile.visited_eq`
-/

namespace FeSyntax

------------------------------------------------------------
-- Parts
------------------------------------------------------------

namespace Node

/- The nodes that a node is made of, as they are written. -/
def parts : Node → List Node
  | sourceFile f => f.definitions.map definition
  | definition (.module m) =>
      identifier m.name :: m.definitions.map definition
  | definition (.function f) => [function f]
  | definition (.struct s) =>
      identifier s.name ::
        (s.typeParams.map identifier ++
          (s.fields.getD []).map field)
  | definition (.constant c) =>
      [identifier c.name, ty c.ty, expression c.value]
  | definition (.typeAlias a) =>
      identifier a.name ::
        (a.typeParams.map identifier ++ [ty a.ty])
  | definition (.trait t) =>
      identifier t.name ::
        (t.typeParams.map identifier ++
          t.functions.map function)
  | definition (.impl i) =>
      ty i.ty ::
        ((i.traitTy.map ty).toList ++
          i.functions.map function)
  | function f =>
      identifier f.name ::
        (f.typeParams.map identifier ++
          f.params.map param ++
          (f.returnType.map ty).toList ++ [block f.body])
  | param p => [identifier p.name, ty p.ty]
  | field f => [identifier f.name, ty f.ty]
  | ty (.path p) => [path p]
  | ty (.reference _ inner _) => [ty inner]
  | ty (.tuple elements _) => elements.map ty
  | ty (.primitive _ _) => []
  | block b =>
      b.statements.map statement ++
        (b.tail.map expression).toList
  | statement (.binding b) =>
      identifier b.name ::
        ((b.ty.map ty).toList ++
          (b.value.map expression).toList)
  | statement (.expression value _) => [expression value]
  | expression (.literal l) => [literal l]
  | expression (.path p) => [path p]
  | expression (.block b) => [block b]
  | expression (.matching m) =>
      expression m.value :: m.arms.map matchArm
  | matchArm a => [pattern a.pattern, expression a.value]
  | pattern (.identifier i) => [identifier i]
  | pattern (.literal l) => [literal l]
  | pattern (.wildcard _) => []
  | pattern (.tupleStruct p elements _) =>
      path p :: elements.map pattern
  | path p => p.segments.map identifier
  | literal _ => []
  | identifier _ => []

/- The outline of what starts at a node. -/
def outline : Node → Outline
  | sourceFile f => f.outline
  | definition d => d.outline
  | function f => f.outline
  | param p => p.outline
  | field f => f.outline
  | ty t => t.outline
  | block b => b.outline
  | statement s => s.outline
  | expression e => e.outline
  | matchArm a => a.outline
  | pattern p => p.outline
  | path p => p.outline
  | literal l => l.outline
  | identifier i => i.outline

end Node

------------------------------------------------------------
-- Outlines Of Parts
------------------------------------------------------------

namespace Node

/- The children in an outline are the parts of its node. -/
theorem outline_eq
    (n : Node) :
    n.outline = .node n (n.parts.map outline) := by
  cases n with
  | sourceFile f =>
      simp [outline, parts, SourceFile.outline]
  | definition d =>
      cases d with
      | module m =>
          cases m
          simp [outline, parts, Definition.outline,
            Module.outlineParts]
      | function f => rfl
      | struct s =>
          simp [outline, parts, Definition.outline,
            Struct.outlineParts]
          rfl
      | constant c => rfl
      | typeAlias a =>
          simp [outline, parts, Definition.outline,
            TypeAlias.outlineParts]
      | trait t =>
          simp [outline, parts, Definition.outline,
            Trait.outlineParts]
          rfl
      | impl i =>
          simp [outline, parts, Definition.outline,
            Impl.outlineParts, Option.toList_map]
          rfl
  | function f =>
      simp [outline, parts, Function.outline,
        Option.toList_map]
      rfl
  | param p => rfl
  | field f => rfl
  | ty t =>
      cases t with
      | tuple elements span =>
          simp [outline, parts, Ty.outline]
      | _ => rfl
  | block b =>
      cases b
      simp [outline, parts, Block.outline,
        Option.toList_map]
      rfl
  | statement s =>
      cases s with
      | binding b =>
          cases b
          simp [outline, parts, Statement.outline,
            LetBinding.outlineParts, Option.toList_map]
          rfl
      | expression value span =>
          simp [outline, parts, Statement.outline]
  | expression e =>
      cases e with
      | matching m =>
          cases m
          simp [outline, parts, Expression.outline,
            Match.outlineParts]
      | _ => simp [outline, parts, Expression.outline]
  | matchArm a =>
      cases a
      simp [outline, parts, MatchArm.outline]
  | pattern p =>
      cases p with
      | tupleStruct path elements span =>
          simp [outline, parts, Pattern.outline]
      | _ => rfl
  | path p => simp [outline, parts, Path.outline]
  | literal l => rfl
  | identifier i => rfl

end Node

------------------------------------------------------------
-- Induction On Parts
------------------------------------------------------------

namespace Node

mutual

/-
  Induction over an outline reaches the node that has it.
-/
theorem induction_outline
    {motive : Node → Prop}
    (step : ∀ n, (∀ m ∈ n.parts, motive m) → motive n)
    (o : Outline)
    (n : Node)
    (hOutline : n.outline = o) :
    motive n := by
  rcases o with ⟨root, children⟩
  rw [outline_eq] at hOutline
  injection hOutline with hRoot hChildren
  exact
    step n
      (induction_outlines step children n.parts hChildren)

/- So does induction over the outlines of a list. -/
theorem induction_outlines
    {motive : Node → Prop}
    (step : ∀ n, (∀ m ∈ n.parts, motive m) → motive n)
    (os : List Outline)
    (ns : List Node)
    (hOutlines : ns.map outline = os) :
    ∀ n ∈ ns, motive n := by
  rcases os with _ | ⟨o, os⟩
  · rw [List.map_eq_nil_iff.mp hOutlines]
    exact List.forall_mem_nil _
  · rcases List.map_eq_cons_iff.mp hOutlines with
      ⟨n, ns', rfl, hFirst, hRest⟩
    exact List.forall_mem_cons.mpr
      ⟨induction_outline step o n hFirst,
        induction_outlines step os ns' hRest⟩

end

/- What passes from the parts to the whole holds. -/
theorem induction
    {motive : Node → Prop}
    (step : ∀ n, (∀ m ∈ n.parts, motive m) → motive n)
    (n : Node) :
    motive n :=
  induction_outline step n.outline n rfl

end Node

------------------------------------------------------------
-- Walking
------------------------------------------------------------

/-
  A walk over outlines is a walk over each of them in turn.
-/
theorem Outline.walkAll_eq_flatMap
    (descend : Node → Bool)
    (os : List Outline) :
    walkAll descend os = os.flatMap (walk descend) := by
  induction os with
  | nil => rfl
  | cons o os ih =>
      rw [walkAll, ih, List.flatMap_cons]

namespace Node

/- A node and all nodes that a walk finds below it. -/
def all
    (n : Node) : List Node :=
  n.outline.nodes

/- The nodes that a walk finds below a node. -/
def below
    (n : Node) : List Node :=
  n.parts.flatMap all

/- A node comes first, and then all that is below it. -/
theorem all_eq
    (n : Node) :
    n.all = n :: n.below := by
  rw [all, outline_eq, Outline.nodes, Outline.walk,
    if_pos rfl, Outline.walkAll_eq_flatMap,
    List.flatMap_map]
  rfl

theorem self_mem_all
    (n : Node) :
    n ∈ n.all := by
  rw [all_eq]
  exact List.mem_cons_self

/- Going to a part again and again leads to the node. -/
def Reaches : Node → Node → Prop :=
  Relation.ReflTransGen (fun n m => m ∈ n.parts)

/- A walk finds exactly the nodes that can be reached. -/
theorem mem_all_iff
    {n m : Node} :
    m ∈ n.all ↔ n.Reaches m := by
  constructor
  · induction n using induction with
    | step n ih =>
        rw [all_eq, List.mem_cons, below, List.mem_flatMap]
        rintro (rfl | ⟨part, hPart, hMem⟩)
        · exact .refl
        · exact .head hPart (ih part hPart hMem)
  · intro hReaches
    induction hReaches using
        Relation.ReflTransGen.head_induction_on with
    | refl => exact self_mem_all m
    | head hPart hReaches ih =>
        rw [all_eq]
        exact .tail _
          (List.mem_flatMap.mpr ⟨_, hPart, ih⟩)

/- What is below a node is a part of some node there. -/
theorem exists_parent
    {n m : Node}
    (hBelow : m ∈ n.below) :
    ∃ p ∈ n.all, m ∈ p.parts := by
  rcases List.mem_flatMap.mp hBelow with
    ⟨part, hPart, hMem⟩
  rcases Relation.ReflTransGen.cases_tail
      (mem_all_iff.mp hMem) with
    hSame | ⟨p, hReaches, hLast⟩
  · rw [hSame]
    exact ⟨n, self_mem_all n, hPart⟩
  · exact
      ⟨p, mem_all_iff.mpr (.head hPart hReaches), hLast⟩

/- The nodes below a node are listed in one piece. -/
theorem all_infix_of_mem
    {n m : Node}
    (hMem : m ∈ n.all) :
    m.all <:+: n.all := by
  induction n using induction with
  | step n ih =>
      rw [all_eq, List.mem_cons, below,
        List.mem_flatMap] at hMem
      rcases hMem with rfl | ⟨part, hPart, hMem⟩
      · exact List.infix_rfl
      · rw [all_eq n]
        exact
          ((ih part hPart hMem).trans
            (List.infix_of_mem_flatten
              (List.mem_map_of_mem hPart))).trans
            (List.suffix_cons _ _).isInfix

/- A node below another one has fewer nodes in it. -/
theorem length_all_lt
    {n m : Node}
    (hBelow : m ∈ n.below) :
    m.all.length < n.all.length := by
  rcases List.mem_flatMap.mp hBelow with
    ⟨part, hPart, hMem⟩
  have hInfix :
      m.all <:+: n.below :=
    (all_infix_of_mem hMem).trans
      (List.infix_of_mem_flatten
        (List.mem_map_of_mem hPart))
  rw [all_eq n, List.length_cons]
  exact Nat.lt_succ_of_le hInfix.length_le

/- So no node is below itself, even if it looks the same. -/
theorem not_mem_below
    (n : Node) :
    n ∉ n.below :=
  fun hBelow => Nat.lt_irrefl _ (length_all_lt hBelow)

/- The parts of a node stand below it in their order. -/
theorem parts_sublist_below
    (n : Node) :
    n.parts.Sublist n.below := by
  rw [below]
  induction n.parts with
  | nil => exact .slnil
  | cons part parts ih =>
      rw [List.flatMap_cons, all_eq, List.cons_append]
      exact
        (ih.trans
          (List.sublist_append_right _ _)).cons_cons part

/- A walk lists a node, and its parts behind it in order. -/
theorem parts_sublist
    {n m : Node}
    (hMem : m ∈ n.all) :
    (m :: m.parts).Sublist n.all := by
  refine .trans ?_ (all_infix_of_mem hMem).sublist
  rw [all_eq]
  exact (parts_sublist_below m).cons_cons m

end Node

------------------------------------------------------------
-- Source Files
------------------------------------------------------------

namespace SourceFile

/- The node is somewhere in the file. -/
def Has
    (f : SourceFile)
    (n : Node) : Prop :=
  (Node.sourceFile f).Reaches n

/-
  The nodes of a file are those that can be reached from its
  root.
-/
theorem mem_nodes_iff
    {f : SourceFile}
    {n : Node} :
    n ∈ f.nodes ↔ f.Has n :=
  @Node.mem_all_iff (.sourceFile f) n

/-
  What a visitor sees that looks at some nodes only, and
  does not go on to what is below those.
-/
def visited
    {α : Type}
    (sees : Node → Option α)
    (f : SourceFile) : List α :=
  (f.outline.walk (fun n => (sees n).isNone)).filterMap sees

/- A visitor that looks at leaves walks through it all. -/
theorem visited_eq
    {α : Type}
    {sees : Node → Option α}
    (hLeaf : ∀ n, (sees n).isSome → n.parts = [])
    (f : SourceFile) :
    f.visited sees = f.nodes.filterMap sees := by
  have hWalk (n : Node) :
      n.outline.walk (fun n => (sees n).isNone) = n.all := by
    induction n using Node.induction with
    | step n ih =>
        rw [Node.all_eq, Node.outline_eq, Outline.walk,
          Outline.walkAll_eq_flatMap, List.flatMap_map,
          Node.below]
        cases hSees : sees n with
        | none =>
            rw [Option.isNone_none, if_pos rfl]
            exact congrArg (n :: ·)
              (List.flatMap_congr ih)
        | some a =>
            have hNone : n.parts = [] :=
              hLeaf n (by rw [hSees]; rfl)
            rw [hNone]
            rfl
  exact congrArg (List.filterMap sees)
    (hWalk (.sourceFile f))

end SourceFile

end FeSyntax
