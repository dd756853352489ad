import FeSyntax.Ast.Named
import FeSyntax.Proofs.NamedTree.Words
import FeSyntax.Proofs.Syntax.Parts

/-
  This file compares the S-expression of a file with a walk
  through its syntax tree.  Both are written independently,
  child by child, and show the same nodes in the same order,
  once the nodes that only one of them knows are left out.

  Key definitions include:
    * `NamedKind.wrappers`
    * `Node.shownKind?`
    * `Node.trees`
    * `Node.ShownBy`

  Key theorems include:
    * `Node.shownBy_trees`
    * `SourceFile.writtenKinds_sexp_eq_nodes`
-/

namespace FeSyntax

------------------------------------------------------------
-- Lists Of Trees
------------------------------------------------------------

/- The nodes of a list are those of its types in turn. -/
theorem Ty.namedAll_eq
    (tys : List Ty) :
    namedAll tys = tys.map (named none) := by
  induction tys with
  | nil => rfl
  | cons ty tys ih => rw [namedAll, ih, List.map_cons]

/- A pattern in a list may have several nodes, or none. -/
theorem Pattern.namedAll_eq
    (field : Option FieldName)
    (ps : List Pattern) :
    namedAll field ps = ps.flatMap (named field) := by
  induction ps with
  | nil => rfl
  | cons p ps ih => rw [namedAll, ih, List.flatMap_cons]

/-
  The nodes of a list are those of its statements in turn.
-/
theorem Block.namedStatements_eq
    (ss : List Statement) :
    namedStatements ss = ss.map Statement.named := by
  induction ss with
  | nil => rfl
  | cons s ss ih => rw [namedStatements, ih, List.map_cons]

/- The nodes of a list are those of its arms in turn. -/
theorem Match.namedArms_eq
    (arms : List MatchArm) :
    namedArms arms = arms.map MatchArm.named := by
  induction arms with
  | nil => rfl
  | cons a arms ih => rw [namedArms, ih, List.map_cons]

/- An expression has one node if it is there. -/
theorem Expression.namedOption_eq
    (field : Option FieldName)
    (e : Option Expression) :
    namedOption field e = e.toList.map (named field) := by
  cases e <;> rfl

/-
  The nodes of a list are those of its definitions in turn.
-/
theorem Module.namedDefinitions_eq
    (ds : List Definition) :
    namedDefinitions ds = ds.map Definition.named := by
  induction ds with
  | nil => rfl
  | cons d ds ih => rw [namedDefinitions, ih, List.map_cons]

------------------------------------------------------------
-- Kinds Of Visited Nodes
------------------------------------------------------------

/-
  The kinds that an S-expression writes around other nodes,
  or inside a literal, and that no visited node has.
-/
def NamedKind.wrappers : List NamedKind :=
  [ sourceFile, typeParams, params, structFields, block,
    numberLiteral, booleanLiteral, stringLiteral ]

namespace Node

/-
  The kind that an S-expression gives a visited node.  Some
  nodes are visited, but have no node of their own there.
-/
def shownKind? : Node → Option NamedKind
  | definition (.function _) => none
  | definition d => some d.nodeKind
  | function _ => some .functionDef
  | param _ => some .param
  | field _ => some .structField
  | block _ => some .blockExpr
  | statement (.binding _) => some .letStatement
  | expression (.matching _) => some .matchExpr
  | matchArm _ => some .matchArm
  | path _ => some .path
  | literal _ => some .literal
  | identifier _ => some .identifier
  | ty (.reference _ _ _) => some .referenceType
  | ty (.tuple _ _) => some .tupleType
  | ty (.primitive _ _) => some .primitiveType
  | ty (.path _) => none
  | statement (.expression _ _) => none
  | expression _ => none
  | pattern _ => none
  | sourceFile _ => none

/- The named trees of what starts at a node. -/
def trees
    (label : Option FieldName) : Node → List NamedTree
  | sourceFile f => [f.named]
  | definition d => [d.named]
  | function f => [f.named]
  | param p => [p.named]
  | field f => [f.named]
  | ty t => [t.named label]
  | block b => [b.named label]
  | statement s => [s.named]
  | expression e => [e.named label]
  | matchArm a => [a.named]
  | pattern p => p.named label
  | path p => [p.named label]
  | literal l => [l.named label]
  | identifier _ => [.leaf label .identifier]

------------------------------------------------------------
-- Nodes That Are Shown
------------------------------------------------------------

/-
  Trees show nodes if they have the kinds of all nodes from
  there on, in the order in which these are visited.
-/
def ShownBy
    (ns : List Node)
    (ts : List NamedTree) : Prop :=
  (NamedTree.kindsAll ts).filter (· ∉ NamedKind.wrappers) =
    (ns.flatMap all).filterMap shownKind?

namespace ShownBy

variable {n : Node}
variable {ns ns' : List Node}
variable {ts ts' : List NamedTree}

theorem nil :
    ShownBy [] [] :=
  rfl

/- What is shown in a row is shown by trees in a row. -/
theorem append
    (hFirst : ShownBy ns ts)
    (hLater : ShownBy ns' ts') :
    ShownBy (ns ++ ns') (ts ++ ts') := by
  rw [ShownBy, NamedTree.kindsAll_append,
    List.filter_append, hFirst, hLater, List.flatMap_append,
    List.filterMap_append]

/- One more node in front is shown by one more tree. -/
theorem cons
    {t : NamedTree}
    (hFirst : ShownBy [n] [t])
    (hLater : ShownBy ns ts) :
    ShownBy (n :: ns) (t :: ts) :=
  append hFirst hLater

/- Each item of a list may show several trees. -/
theorem flatMap
    {α : Type}
    {as : List α}
    {node : α → Node}
    {trees : α → List NamedTree}
    (hItems : ∀ a ∈ as, ShownBy [node a] (trees a)) :
    ShownBy (as.map node) (as.flatMap trees) := by
  induction as with
  | nil => exact nil
  | cons a as ih =>
      rcases List.forall_mem_cons.mp hItems with
        ⟨hFirst, hLater⟩
      exact append hFirst (ih hLater)

/- Items that are each shown by a tree are shown in turn. -/
theorem map
    {α : Type}
    {as : List α}
    {node : α → Node}
    {tree : α → NamedTree}
    (hItems : ∀ a ∈ as, ShownBy [node a] [tree a]) :
    ShownBy (as.map node) (as.map tree) := by
  rw [List.map_eq_flatMap (f := tree)]
  exact flatMap hItems

theorem option
    {α : Type}
    {a : Option α}
    {node : α → Node}
    {tree : α → NamedTree}
    (hItem : ∀ b ∈ a, ShownBy [node b] [tree b]) :
    ShownBy (a.map node).toList (a.map tree).toList := by
  rw [Option.toList_map, Option.toList_map]
  exact map fun b hMem => hItem b (Option.mem_toList.mp hMem)

/- A tree for a node, with the trees of its parts. -/
theorem shown
    {kind : NamedKind}
    (field : Option FieldName)
    (hKind : n.shownKind? = some kind)
    (hProper : kind ∉ NamedKind.wrappers)
    (hParts : ShownBy n.parts ts) :
    ShownBy [n] [.node field kind ts] := by
  rw [ShownBy, List.flatMap_singleton, all_eq,
    List.filterMap_cons_some hKind, NamedTree.kindsAll,
    NamedTree.kinds, NamedTree.kindsAll, List.append_nil,
    List.filter_cons, if_pos (by simpa using hProper),
    hParts]
  rfl

/- A node that gives way to its parts. -/
theorem hidden
    (hKind : n.shownKind? = none)
    (hParts : ShownBy n.parts ts) :
    ShownBy [n] ts := by
  rw [ShownBy, List.flatMap_singleton, all_eq,
    List.filterMap_cons_none hKind, hParts]
  rfl

/- A tree that only stands around others. -/
theorem wrapped
    {kind : NamedKind}
    (field : Option FieldName)
    (hWrapper : kind ∈ NamedKind.wrappers)
    (hInner : ShownBy ns ts) :
    ShownBy ns [.node field kind ts] := by
  rw [ShownBy, NamedTree.kindsAll, NamedTree.kinds,
    NamedTree.kindsAll, List.append_nil, List.filter_cons,
    if_neg (by simpa using hWrapper)]
  exact hInner

end ShownBy

------------------------------------------------------------
-- Names And Literals
------------------------------------------------------------

theorem shownBy_identifier
    (field : Option FieldName)
    (i : Identifier) :
    ShownBy [identifier i] [.leaf field .identifier] :=
  .shown field rfl (by decide) .nil

/-
  Type parameters are shown by one tree around their leaves.
-/
theorem shownBy_typeParams
    (names : List Identifier) :
    ShownBy (names.map identifier)
      (Identifier.typeParamsNamed names) := by
  cases names with
  | nil => exact .nil
  | cons name names =>
      exact .wrapped none (by decide)
        (.map fun i _ => shownBy_identifier none i)

/- A path is shown by its tree, with its segments inside. -/
theorem shownBy_path
    (field : Option FieldName)
    (p : Path) :
    ShownBy [path p] [p.named field] :=
  .shown field rfl (by decide)
    (.map fun i _ => shownBy_identifier none i)

theorem shownBy_literal
    (field : Option FieldName)
    (l : Literal) :
    ShownBy [literal l] [l.named field] := by
  refine .shown field rfl (by decide) ?_
  refine .wrapped none ?_ .nil
  cases l.value <;>
    simp [LiteralValue.nodeKind, NamedKind.wrappers]

------------------------------------------------------------
-- Nodes Made Of Parts
------------------------------------------------------------

/- The trees of all parts of a node show these parts. -/
def PartsShown
    (n : Node) : Prop :=
  ∀ m ∈ n.parts, ∀ label, ShownBy [m] (m.trees label)

/-
  If parts of a node are items that have a tree each, they
  are shown in turn.
-/
theorem PartsShown.map
    {n : Node}
    {α : Type}
    {as : List α}
    {node : α → Node}
    {tree : α → NamedTree}
    (hShown : n.PartsShown)
    (label : Option FieldName)
    (hTree : ∀ a, (node a).trees label = [tree a])
    (hParts : ∀ a ∈ as, node a ∈ n.parts) :
    ShownBy (as.map node) (as.map tree) := by
  refine .map fun a hMem => ?_
  rw [← hTree]
  exact hShown _ (hParts a hMem) label

theorem PartsShown.option
    {n : Node}
    {α : Type}
    {a : Option α}
    {node : α → Node}
    {tree : α → NamedTree}
    (hShown : n.PartsShown)
    (label : Option FieldName)
    (hTree : ∀ a, (node a).trees label = [tree a])
    (hParts : ∀ b ∈ a, node b ∈ n.parts) :
    ShownBy (a.map node).toList (a.map tree).toList := by
  refine .option fun b hMem => ?_
  rw [← hTree]
  exact hShown _ (hParts b hMem) label

/- A type is shown by its tree, if its parts are shown. -/
theorem shownBy_ty
    (label : Option FieldName)
    (t : Ty)
    (hShown : (ty t).PartsShown) :
    ShownBy [ty t] [t.named label] := by
  cases t with
  | path p =>
      exact .hidden rfl (shownBy_path label p)
  | reference isMut inner span =>
      exact .shown label rfl (by decide)
        (hShown (ty inner) (.head _) none)
  | tuple elements span =>
      refine .shown label rfl (by decide) ?_
      rw [Ty.namedAll_eq]
      exact hShown.map none (fun _ => rfl)
        fun _ => List.mem_map_of_mem
  | primitive kind span =>
      exact .shown label rfl (by decide) .nil

/- A pattern hands its label to every tree that shows it. -/
theorem shownBy_pattern
    (label : Option FieldName)
    (p : Pattern)
    (hShown : (pattern p).PartsShown) :
    ShownBy [pattern p] (p.named label) := by
  cases p with
  | identifier i =>
      exact .hidden rfl (shownBy_identifier label i)
  | literal l => exact .hidden rfl (shownBy_literal label l)
  | wildcard span => exact .hidden rfl .nil
  | tupleStruct path elements span =>
      refine .hidden rfl ?_
      rw [Pattern.named, Pattern.namedAll_eq]
      refine .cons (shownBy_path label path) (.flatMap ?_)
      intro element hMem
      exact
        hShown (pattern element)
          (.tail _ (List.mem_map_of_mem hMem)) label

/- A block is shown by its tree, if its parts are shown. -/
theorem shownBy_block
    (label : Option FieldName)
    (b : Block)
    (hShown : (block b).PartsShown) :
    ShownBy [block b] [b.named label] := by
  rcases b with ⟨statements, tail, span⟩
  rw [Block.named, Block.namedStatements_eq,
    Expression.namedOption_eq, ← Option.toList_map]
  refine .shown label rfl (by decide) (.append ?_ ?_)
  · exact hShown.map none (fun _ => rfl)
      fun s hMem => by simp [parts, hMem]
  · exact hShown.option none (fun _ => rfl)
      fun e hMem => by simp_all [parts]

/- A statement that is an expression gives way to it. -/
theorem shownBy_statement
    (s : Statement)
    (hShown : (statement s).PartsShown) :
    ShownBy [statement s] [s.named] := by
  cases s with
  | binding b =>
      rcases b with ⟨isMut, name, type, value, span⟩
      rw [Statement.named, LetBinding.named,
        Expression.namedOption_eq, ← Option.toList_map]
      refine .shown none rfl (by decide) ?_
      refine .cons (shownBy_identifier _ name)
        (.append ?_ ?_)
      · exact hShown.option (some .type) (fun _ => rfl)
          fun t hMem => by simp_all [parts]
      · exact hShown.option (some .value) (fun _ => rfl)
          fun e hMem => by simp_all [parts]
  | expression value span =>
      exact .hidden rfl
        (hShown (expression value) (.head _) none)

/-
  An expression gives way to the literal, the path or the
  block that it is; a match has a tree of its own.
-/
theorem shownBy_expression
    (label : Option FieldName)
    (e : Expression)
    (hShown : (expression e).PartsShown) :
    ShownBy [expression e] [e.named label] := by
  cases e with
  | literal l => exact .hidden rfl (shownBy_literal label l)
  | path p => exact .hidden rfl (shownBy_path label p)
  | block b =>
      exact .hidden rfl (hShown (block b) (.head _) label)
  | matching m =>
      rcases m with ⟨value, arms, span⟩
      rw [Expression.named, Match.named, Match.namedArms_eq]
      refine .shown label rfl (by decide) (.cons ?_ ?_)
      · exact
          hShown (expression value) (.head _) (some .value)
      · exact hShown.map none (fun _ => rfl)
          fun a hMem => by simp [parts, hMem]

/- An arm is shown by its tree, if its parts are shown. -/
theorem shownBy_matchArm
    (a : MatchArm)
    (hShown : (matchArm a).PartsShown) :
    ShownBy [matchArm a] [a.named] := by
  rcases a with ⟨p, value, span⟩
  have hPattern :=
    hShown (pattern p) (.head _) (some .pattern)
  have hValue :=
    hShown (expression value) (.tail _ (.head _))
      (some .value)
  rw [MatchArm.named]
  exact .shown none rfl (by decide)
    (.append hPattern hValue)

/- A name with its type, as in a parameter or a field. -/
theorem shownBy_nameAndTy
    (name : Identifier)
    (t : Ty)
    (hTy : ∀ label, ShownBy [ty t] [t.named label]) :
    ShownBy [identifier name, ty t]
      [name.named, t.named (some .type)] :=
  .cons (shownBy_identifier _ name) (hTy (some .type))

/- The body of a function stands in a tree of its own. -/
theorem shownBy_function
    (f : Function)
    (hShown : (function f).PartsShown) :
    ShownBy [function f] [f.named] := by
  have hParams :
      ShownBy (f.params.map param)
        (Function.paramsNamed f.params) := by
    have hMap :
        ShownBy (f.params.map param)
          (f.params.map Param.named) :=
      hShown.map none (fun _ => rfl)
        fun p hMem => by simp [parts, hMem]
    cases hCases : f.params with
    | nil => exact .nil
    | cons p ps =>
        rw [hCases] at hMap
        exact .wrapped none (by decide) hMap
  refine .shown none rfl (by decide) ?_
  refine .cons (shownBy_identifier _ f.name)
    (.append
      (.append
        (.append (shownBy_typeParams f.typeParams) hParams)
        ?_)
      (.wrapped none (by decide) ?_))
  · exact hShown.option (some .returnType) (fun _ => rfl)
      fun t hMem => by simp_all [parts]
  · exact hShown (block f.body) (by simp [parts]) none

/-
  A definition is shown by its tree, whichever form it has.
-/
theorem shownBy_definition
    (d : Definition)
    (hShown : (definition d).PartsShown) :
    ShownBy [definition d] [d.named] := by
  cases d with
  | module m =>
      rcases m with ⟨name, definitions, span⟩
      rw [Definition.named, Module.named,
        Module.namedDefinitions_eq]
      refine .shown none rfl (by decide) ?_
      refine .cons (shownBy_identifier _ name) ?_
      exact hShown.map none (fun _ => rfl)
        fun d hMem => by simp [parts, hMem]
  | function f =>
      exact .hidden rfl
        (hShown (function f) (.head _) none)
  | struct s =>
      refine .shown none rfl (by decide) ?_
      refine .cons (shownBy_identifier _ s.name)
        (.append (shownBy_typeParams s.typeParams) ?_)
      cases hFields : s.fields with
      | none => exact .nil
      | some fields =>
          refine .wrapped none (by decide) ?_
          exact hShown.map none (fun _ => rfl)
            fun f hMem => by simp_all [parts]
  | constant c =>
      refine .shown none rfl (by decide) ?_
      refine .cons (shownBy_identifier _ c.name)
        (.cons ?_ ?_)
      · exact hShown (ty c.ty) (by simp [parts]) (some .type)
      · exact
          hShown (expression c.value) (by simp [parts]) none
  | typeAlias a =>
      refine .shown none rfl (by decide) ?_
      refine .cons (shownBy_identifier _ a.name)
        (.append (shownBy_typeParams a.typeParams) ?_)
      exact hShown (ty a.ty) (by simp [parts]) (some .type)
  | trait t =>
      refine .shown none rfl (by decide) ?_
      refine .cons (shownBy_identifier _ t.name)
        (.append (shownBy_typeParams t.typeParams) ?_)
      exact hShown.map none (fun _ => rfl)
        fun f hMem => by simp [parts, hMem]
  | impl i =>
      refine .shown none rfl (by decide) ?_
      refine .cons ?_ (.append ?_ ?_)
      · exact hShown (ty i.ty) (by simp [parts]) (some .type)
      · exact hShown.option (some .trait) (fun _ => rfl)
          fun t hMem => by simp_all [parts]
      · exact hShown.map none (fun _ => rfl)
          fun f hMem => by simp [parts, hMem]

theorem shownBy_sourceFile
    (f : SourceFile)
    (hShown : (sourceFile f).PartsShown) :
    ShownBy [sourceFile f] [f.named] := by
  rw [SourceFile.named, Module.namedDefinitions_eq]
  refine .hidden rfl (.wrapped none (by decide) ?_)
  exact hShown.map none (fun _ => rfl)
    fun d hMem => by simp [parts, hMem]

------------------------------------------------------------
-- All Nodes
------------------------------------------------------------

/-
  The trees of a node show it with everything below it.  The
  proof goes from the parts of a node to the node.
-/
theorem shownBy_trees
    (label : Option FieldName)
    (n : Node) :
    ShownBy [n] (n.trees label) := by
  induction n using induction generalizing label with
  | step n ih =>
      have hShown : n.PartsShown := fun m hPart label' =>
        ih m hPart label'
      cases n with
      | sourceFile f => exact shownBy_sourceFile f hShown
      | definition d => exact shownBy_definition d hShown
      | function f => exact shownBy_function f hShown
      | param p =>
          refine .shown none rfl (by decide) ?_
          exact shownBy_nameAndTy p.name p.ty
            (hShown (ty p.ty) (.tail _ (.head _)))
      | field f =>
          refine .shown none rfl (by decide) ?_
          exact shownBy_nameAndTy f.name f.ty
            (hShown (ty f.ty) (.tail _ (.head _)))
      | ty t => exact shownBy_ty label t hShown
      | block b => exact shownBy_block label b hShown
      | statement s => exact shownBy_statement s hShown
      | expression e =>
          exact shownBy_expression label e hShown
      | matchArm a => exact shownBy_matchArm a hShown
      | pattern p => exact shownBy_pattern label p hShown
      | path p => exact shownBy_path label p
      | literal l => exact shownBy_literal label l
      | identifier i => exact shownBy_identifier label i

end Node

------------------------------------------------------------
-- Source Files
------------------------------------------------------------

namespace SourceFile

/-
  The kinds that the S-expression of a file opens are, from
  left to right and but for the wrappers, the kinds of the
  nodes that a walk through the whole file visits.
-/
theorem writtenKinds_sexp_eq_nodes
    (f : SourceFile) :
    (NamedTree.writtenKinds f.sexp.toList).filter
        (· ∉ NamedKind.wrappers.map NamedKind.name) =
      (f.nodes.filterMap Node.shownKind?).map
        NamedKind.name := by
  have hShown := Node.shownBy_trees none (.sourceFile f)
  have hNodes : f.nodes = (Node.sourceFile f).all := rfl
  rw [Node.ShownBy, List.flatMap_singleton, ← hNodes]
    at hShown
  have hKinds :
      NamedTree.kindsAll [f.named] = f.named.kinds := by
    rw [NamedTree.kindsAll, NamedTree.kindsAll,
      List.append_nil]
  rw [← hShown, Node.trees, hKinds, sexp,
    NamedTree.writtenKinds_render, List.filter_map]
  congr 1
  refine List.filter_congr fun k _ => ?_
  simp only [Function.comp_apply,
    List.mem_map_of_injective NamedKind.name_injective]

end SourceFile

end FeSyntax
