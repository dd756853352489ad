import FeSyntax.Proofs.Highlighting.RoleTable
import FeSyntax.Proofs.Highlighting.TokenCover
import FeSyntax.Proofs.Parsing.Walk

/-
  This file proves that words are highlighted by what they
  are in the syntax tree.  The names that nodes give roles
  are a part of all names, in their order, and all names
  start at different places.  So the table of a file has one
  role for each of them, and it is that of the node.

  Key definitions include:
    * `SourceFile.HasRole`
    * `SourceFile.Means`

  Key theorems include:
    * `SourceFile.mem_roles_iff`
    * `Node.roleNames_sublist`
    * `SourceFile.exists_means`
    * `SourceFile.captureOf_of_means`
    * `highlight_shows_roles`
-/

namespace FeSyntax

------------------------------------------------------------
-- Roles Of Names
------------------------------------------------------------

namespace SourceFile

/- A name of the file has a role, by what it names. -/
inductive HasRole
    (f : SourceFile) : Identifier → Capture → Prop where
  | function
      {g : Function}
      (hHas : f.Has (.function g)) :
      HasRole f g.name .function
  | module
      {m : Module}
      (hHas : f.Has (.definition (.module m))) :
      HasRole f m.name .module
  | constant
      {c : Constant}
      (hHas : f.Has (.definition (.constant c))) :
      HasRole f c.name .constant
  | property
      {d : Field}
      (hHas : f.Has (.field d)) :
      HasRole f d.name .property
  | parameter
      {p : Param}
      (hHas : f.Has (.param p)) :
      HasRole f p.name .parameter
  | struct
      {s : Struct}
      (hHas : f.Has (.definition (.struct s))) :
      HasRole f s.name .type
  | trait
      {t : Trait}
      (hHas : f.Has (.definition (.trait t))) :
      HasRole f t.name .type
  | typeAlias
      {a : TypeAlias}
      (hHas : f.Has (.definition (.typeAlias a))) :
      HasRole f a.name .type
  | structTypeParam
      {s : Struct}
      {i : Identifier}
      (hHas : f.Has (.definition (.struct s)))
      (hMem : i ∈ s.typeParams) :
      HasRole f i .type
  | traitTypeParam
      {t : Trait}
      {i : Identifier}
      (hHas : f.Has (.definition (.trait t)))
      (hMem : i ∈ t.typeParams) :
      HasRole f i .type
  | aliasTypeParam
      {a : TypeAlias}
      {i : Identifier}
      (hHas : f.Has (.definition (.typeAlias a)))
      (hMem : i ∈ a.typeParams) :
      HasRole f i .type
  | functionTypeParam
      {g : Function}
      {i : Identifier}
      (hHas : f.Has (.function g))
      (hMem : i ∈ g.typeParams) :
      HasRole f i .type
  | typeSegment
      {p : Path}
      {i : Identifier}
      (hHas : f.Has (.ty (.path p)))
      (hMem : i ∈ p.segments) :
      HasRole f i .type

variable {f : SourceFile}
variable {i : Identifier}
variable {c : Capture}

theorem mem_rolesAs_iff
    {capture : Capture}
    {names : List Identifier} :
    (i, c) ∈ Identifier.rolesAs capture names ↔
      i ∈ names ∧ c = capture := by
  rw [Identifier.rolesAs, List.mem_map]
  constructor
  · rintro ⟨j, hMem, hPair⟩
    cases hPair
    exact ⟨hMem, rfl⟩
  · rintro ⟨hMem, rfl⟩
    exact ⟨i, hMem, rfl⟩

/- The roles that nodes give are those of the names. -/
theorem mem_roles_iff :
    (i, c) ∈ f.roles ↔ f.HasRole i c := by
  rw [roles, List.mem_flatMap]
  constructor
  · rintro ⟨n, hNode, hRole⟩
    have hHas := mem_nodes_iff.mp hNode
    cases n with
    | definition d =>
        cases d with
        | module m =>
            cases List.mem_singleton.mp hRole
            exact .module hHas
        | struct s =>
            rcases mem_rolesAs_iff.mp hRole with
              ⟨hName, rfl⟩
            rcases List.mem_cons.mp hName with rfl | hParam
            · exact .struct hHas
            · exact .structTypeParam hHas hParam
        | constant c =>
            cases List.mem_singleton.mp hRole
            exact .constant hHas
        | typeAlias a =>
            rcases mem_rolesAs_iff.mp hRole with
              ⟨hName, rfl⟩
            rcases List.mem_cons.mp hName with rfl | hParam
            · exact .typeAlias hHas
            · exact .aliasTypeParam hHas hParam
        | trait t =>
            rcases mem_rolesAs_iff.mp hRole with
              ⟨hName, rfl⟩
            rcases List.mem_cons.mp hName with rfl | hParam
            · exact .trait hHas
            · exact .traitTypeParam hHas hParam
        | _ => cases hRole
    | function g =>
        rcases List.mem_cons.mp hRole with hName | hParams
        · cases hName
          exact .function hHas
        · rcases mem_rolesAs_iff.mp hParams with
            ⟨hParam, rfl⟩
          exact .functionTypeParam hHas hParam
    | param p =>
        cases List.mem_singleton.mp hRole
        exact .parameter hHas
    | field d =>
        cases List.mem_singleton.mp hRole
        exact .property hHas
    | ty t =>
        cases t with
        | path p =>
            rcases mem_rolesAs_iff.mp hRole with
              ⟨hName, rfl⟩
            exact .typeSegment hHas hName
        | _ => cases hRole
    | _ => cases hRole
  · intro hRole
    cases hRole with
    | function hHas
    | module hHas
    | constant hHas
    | property hHas
    | parameter hHas
    | struct hHas
    | trait hHas
    | typeAlias hHas =>
        exact ⟨_, mem_nodes_iff.mpr hHas, .head _⟩
    | structTypeParam hHas hMem
    | traitTypeParam hHas hMem
    | aliasTypeParam hHas hMem =>
        exact ⟨_, mem_nodes_iff.mpr hHas,
          mem_rolesAs_iff.mpr ⟨.tail _ hMem, rfl⟩⟩
    | functionTypeParam hHas hMem =>
        exact ⟨_, mem_nodes_iff.mpr hHas,
          .tail _ (mem_rolesAs_iff.mpr ⟨hMem, rfl⟩)⟩
    | typeSegment hHas hMem =>
        exact ⟨_, mem_nodes_iff.mpr hHas,
          mem_rolesAs_iff.mpr ⟨hMem, rfl⟩⟩

end SourceFile

------------------------------------------------------------
-- Order Of Roles
------------------------------------------------------------

namespace Node

/- The names that roles are given to from a node on. -/
def roleNames
    (n : Node) : List Identifier :=
  (n.all.flatMap roles).map Prod.fst

/- The names that a walk finds from a node on. -/
def names
    (n : Node) : List Identifier :=
  n.all.filterMap identifier?

theorem roleNames_eq
    (n : Node) :
    n.roleNames =
      n.roles.map Prod.fst ++ n.parts.flatMap roleNames := by
  rw [roleNames, all_eq, List.flatMap_cons, below,
    List.map_append, List.flatMap_assoc, List.map_flatMap]
  rfl

theorem names_eq
    (n : Node) :
    n.names =
      n.identifier?.toList ++ n.parts.flatMap names := by
  rw [names, all_eq, List.filterMap_cons, below,
    List.filterMap_flatMap]
  cases n.identifier? <;> rfl

theorem roleNames_map_identifier
    (is : List Identifier) :
    (is.map identifier).flatMap roleNames = [] := by
  induction is with
  | nil => rfl
  | cons i is ih =>
      rw [List.map_cons, List.flatMap_cons, ih, roleNames_eq]
      rfl

theorem names_map_identifier
    (is : List Identifier) :
    (is.map identifier).flatMap names = is := by
  induction is with
  | nil => rfl
  | cons i is ih =>
      rw [List.map_cons, List.flatMap_cons, ih, names_eq]
      rfl

/- Nodes in turn keep the order that each of them keeps. -/
theorem sublist_flatMap_names
    {ns : List Node}
    (hEach : ∀ n ∈ ns, n.roleNames.Sublist n.names) :
    (ns.flatMap roleNames).Sublist (ns.flatMap names) := by
  induction ns with
  | nil => exact .slnil
  | cons n ns ih =>
      rcases List.forall_mem_cons.mp hEach with
        ⟨hFirst, hLater⟩
      exact hFirst.append (ih hLater)

/- A node that gives roles to the names in front of it. -/
theorem roleNames_sublist_of_parts
    {n : Node}
    {rest : List Node}
    (front : List Identifier)
    (hParts : n.parts = front.map identifier ++ rest)
    (hRoles : n.roles.map Prod.fst = front)
    (hEach :
      ∀ m ∈ n.parts, m.roleNames.Sublist m.names) :
    n.roleNames.Sublist n.names := by
  rw [hParts] at hEach
  have hRest :=
    sublist_flatMap_names
      (List.forall_mem_append.mp hEach).2
  rw [roleNames_eq, names_eq, hParts, hRoles,
    List.flatMap_append, List.flatMap_append,
    roleNames_map_identifier, names_map_identifier,
    List.nil_append]
  exact
    ((List.Sublist.refl front).append hRest).trans
      (List.sublist_append_right _ _)

theorem map_fst_rolesAs
    (capture : Capture)
    (is : List Identifier) :
    (Identifier.rolesAs capture is).map Prod.fst = is := by
  rw [Identifier.rolesAs, List.map_map]
  exact List.map_id _

/- Names get roles in the order in which they are found. -/
theorem roleNames_sublist
    (n : Node) :
    n.roleNames.Sublist n.names := by
  induction n using induction with
  | step n hEach =>
      -- Other nodes give no roles: no names are in front.
      have hOther
          (hNone : n.roles = []) :
          n.roleNames.Sublist n.names :=
        roleNames_sublist_of_parts [] rfl
          (by rw [hNone]; rfl) hEach
      cases n with
      | definition d =>
          cases d with
          | module m =>
              exact roleNames_sublist_of_parts [m.name] rfl
                rfl hEach
          | struct s =>
              exact roleNames_sublist_of_parts
                (s.name :: s.typeParams) rfl
                (map_fst_rolesAs _ _) hEach
          | constant c =>
              exact roleNames_sublist_of_parts [c.name] rfl
                rfl hEach
          | typeAlias a =>
              exact roleNames_sublist_of_parts
                (a.name :: a.typeParams) rfl
                (map_fst_rolesAs _ _) hEach
          | trait t =>
              exact roleNames_sublist_of_parts
                (t.name :: t.typeParams) rfl
                (map_fst_rolesAs _ _) hEach
          | _ => exact hOther rfl
      | function f =>
          have hParts :
              (function f).parts =
                (f.name :: f.typeParams).map identifier ++
                  (f.params.map param ++
                    ((f.returnType.map ty).toList ++
                      [block f.body])) := by
            simp [parts]
          exact roleNames_sublist_of_parts
            (f.name :: f.typeParams) hParts
            (congrArg (f.name :: ·) (map_fst_rolesAs _ _))
            hEach
      | param p =>
          exact roleNames_sublist_of_parts [p.name] rfl rfl
            hEach
      | field f =>
          exact roleNames_sublist_of_parts [f.name] rfl rfl
            hEach
      | ty t =>
          cases t with
          | path p =>
              rw [roleNames_eq, names_eq, parts,
                List.flatMap_singleton, roleNames_eq,
                List.flatMap_singleton, names_eq, parts,
                roleNames_map_identifier,
                names_map_identifier]
              have hRoles :
                  (ty (.path p)).roles.map Prod.fst =
                    p.segments :=
                map_fst_rolesAs _ _
              rw [hRoles]
              simp [roles, identifier?]
          | _ => exact hOther rfl
      | _ => exact hOther rfl

end Node

------------------------------------------------------------
-- Tables Of Parsed Files
------------------------------------------------------------

namespace SourceFile

variable {source : String}
variable {limit : Nat}
variable {f : SourceFile}
variable {i : Identifier}
variable {c : Capture}

/- What has a role is a name of the file. -/
theorem HasRole.has
    (hRole : f.HasRole i c) :
    f.Has (.identifier i) := by
  have hName : i ∈ (Node.sourceFile f).roleNames :=
    List.mem_map.mpr ⟨(i, c), mem_roles_iff.mpr hRole, rfl⟩
  have hFound :=
    (Node.roleNames_sublist (.sourceFile f)).subset hName
  rcases List.mem_filterMap.mp hFound with
    ⟨n, hNode, hSame⟩
  rw [Node.identifier?_eq_some.mp hSame] at hNode
  exact mem_nodes_iff.mp hNode

section Tables

variable (hParse : SourceFile.parse source limit = .ok f)

include hParse

/- Names that start together are the same. -/
theorem identifier_eq_of_start_eq
    {j : Identifier}
    (hFirst : f.Has (.identifier i))
    (hSecond : f.Has (.identifier j))
    (hStart : i.span.start = j.span.start) :
    i = j :=
  Node.identifier.inj
    (eq_of_start_eq hParse (mem_nodes_iff.mpr hFirst)
      (mem_nodes_iff.mpr hSecond) rfl rfl hStart)

/- No two roles are given at the same place. -/
theorem nodup_starts_roles :
    (f.roles.map (fun role => role.1.span.start)).Nodup := by
  have hNames := rising_identifiers hParse
  rw [visited_eq fun _ => Node.parts_of_identifier?]
    at hNames
  have hSublist :
      (f.roles.map Prod.fst).Sublist
        (f.nodes.filterMap Node.identifier?) :=
    Node.roleNames_sublist (.sourceFile f)
  have hRoles := hNames.sublist hSublist
  rw [List.pairwise_map] at hRoles
  exact List.pairwise_map.mpr (hRoles.imp Nat.ne_of_lt)

/- A name that has a role is marked with it. -/
theorem get?_of_hasRole
    (hRole : f.HasRole i c) :
    (RoleTable.ofFile f).get? i.span.start = some c := by
  rw [RoleTable.get?_ofFile,
    RoleTable.lastAt_of_mem (nodup_starts_roles hParse)
      (mem_roles_iff.mpr hRole)]
  rfl

/- A name without a role is marked as a variable. -/
theorem get?_of_no_role
    (hHas : f.Has (.identifier i))
    (hNone : ∀ c, ¬ f.HasRole i c) :
    (RoleTable.ofFile f).get? i.span.start =
      some .anyName := by
  have hRoles :
      RoleTable.lastAt i.span.start f.roles = none := by
    refine RoleTable.lastAt_eq_none_iff.mpr ?_
    rintro ⟨j, d⟩ hMem hStart
    have hRole := mem_roles_iff.mp hMem
    rw [identifier_eq_of_start_eq hParse hRole.has hHas
      hStart] at hRole
    exact hNone d hRole
  have hPlain :
      ∃ j ∈ f.nodes.filterMap Node.identifier?,
        j.span.start = i.span.start :=
    ⟨i, List.mem_filterMap.mpr
      ⟨_, mem_nodes_iff.mpr hHas, rfl⟩, rfl⟩
  rw [RoleTable.get?_ofFile, hRoles, plainRoles,
    RoleTable.lastAt_rolesAs, if_pos hPlain]
  rfl

end Tables

/- Where no name starts, there is no mark. -/
theorem get?_of_no_name
    {start : Nat}
    (hNone :
      ∀ i, f.Has (.identifier i) → i.span.start ≠ start) :
    (RoleTable.ofFile f).get? start = none := by
  have hRoles : RoleTable.lastAt start f.roles = none := by
    refine RoleTable.lastAt_eq_none_iff.mpr ?_
    intro role hMem
    exact hNone role.1 (mem_roles_iff.mp hMem).has
  have hPlain :
      ¬ ∃ j ∈ f.nodes.filterMap Node.identifier?,
        j.span.start = start := by
    rintro ⟨j, hMem, hStart⟩
    rcases List.mem_filterMap.mp hMem with ⟨n, hNode, hSame⟩
    rw [Node.identifier?_eq_some.mp hSame] at hNode
    exact hNone j (mem_nodes_iff.mp hNode) hStart
  rw [RoleTable.get?_ofFile, hRoles, plainRoles,
    RoleTable.lastAt_rolesAs, if_neg hPlain]
  rfl

------------------------------------------------------------
-- What Words Mean
------------------------------------------------------------

/-
  What a word of the text is in the file.  A word that is no
  name, no literal and no primitive type is a keyword, or a
  wildcard, which is shown like one.
-/
def Means
    (f : SourceFile)
    (t : Token) : Capture → Prop
  | .anyName =>
      ∃ i, f.Has (.identifier i) ∧ i.span = t.span ∧
        ∀ c, ¬ f.HasRole i c
  | .boolean =>
      ∃ b, f.Has (.literal ⟨.bool b, t.span⟩)
  | .typeBuiltin => ∃ p, f.Has (.ty (.primitive p t.span))
  | .keyword =>
      (∀ i, f.Has (.identifier i) → i.span ≠ t.span) ∧
      (∀ l, f.Has (.literal l) → l.span ≠ t.span) ∧
      ∀ p, ¬ f.Has (.ty (.primitive p t.span))
  | c => ∃ i, f.HasRole i c ∧ i.span = t.span

theorem means_of_hasRole
    {t : Token}
    (hRole : f.HasRole i c)
    (hSpan : i.span = t.span) :
    f.Means t c := by
  have hSome : ∃ j, f.HasRole j c ∧ j.span = t.span :=
    ⟨i, hRole, hSpan⟩
  cases hRole <;> exact hSome

/- No name stands where another leaf stands. -/
theorem span_ne_of_leaf
    (hParse : SourceFile.parse source limit = .ok f)
    {t : Token}
    {n : Node}
    {kind : TokenKind}
    (hHas : f.Has n)
    (hKind : n.leafKind? = some kind)
    (hSpan : n.span = t.span)
    (hOther : n.identifier? = none) :
    ∀ i, f.Has (.identifier i) → i.span ≠ t.span := by
  intro i hName hSame
  have hEqual :=
    eq_of_start_eq hParse (mem_nodes_iff.mpr hName)
      (mem_nodes_iff.mpr hHas) rfl
      (Node.parts_of_leafKind? hKind)
      (congrArg Span.start (hSame.trans hSpan.symm))
  rw [← hEqual] at hOther
  cases hOther

section Words

variable {t : Token}
variable {word : String}
variable (hParse : SourceFile.parse source limit = .ok f)
variable (hMem : t ∈ tokenize source)
variable (hWord : t.kind.word? = some word)

include hParse hMem hWord

/- Every word is something in the file. -/
theorem exists_means :
    ∃ c, f.Means t c := by
  by_cases hName :
      ∃ i, f.Has (.identifier i) ∧ i.span = t.span
  · rcases hName with ⟨i, hHas, hSpan⟩
    by_cases hRole : ∃ c, f.HasRole i c
    · rcases hRole with ⟨c, hRole⟩
      exact ⟨c, means_of_hasRole hRole hSpan⟩
    · exact ⟨.anyName, i, hHas, hSpan, not_exists.mp hRole⟩
  by_cases hLiteral :
      ∃ l, f.Has (.literal l) ∧ l.span = t.span
  · rcases hLiteral with ⟨⟨value, span⟩, hHas, rfl⟩
    have hKind :=
      (span_eq_and_kind_eq_of_leaf hParse
        (mem_nodes_iff.mpr hHas) rfl
        (mem_significantTokens_of_word hMem hWord) rfl).2
    rw [hKind] at hWord
    cases value with
    | bool b => exact ⟨.boolean, b, hHas⟩
    | _ => cases hWord
  by_cases hPrimitive :
      ∃ p, f.Has (.ty (.primitive p t.span))
  · exact ⟨.typeBuiltin, hPrimitive⟩
  · refine ⟨.keyword, ?_, ?_, not_exists.mp hPrimitive⟩
    · exact fun i hHas hSpan => hName ⟨i, hHas, hSpan⟩
    · exact fun l hHas hSpan => hLiteral ⟨l, hHas, hSpan⟩

/- A word that is no name is shown by its kind. -/
theorem captureOf_of_no_name
    {byKind : Capture}
    (hNone :
      ∀ i, f.Has (.identifier i) → i.span ≠ t.span) :
    (RoleTable.ofFile f).captureOf t byKind = byKind := by
  have hStarts :
      ∀ i, f.Has (.identifier i) →
        i.span.start ≠ t.span.start := by
    intro i hHas hStart
    exact hNone i hHas
      (span_eq_and_kind_eq_of_leaf hParse
        (mem_nodes_iff.mpr hHas) rfl
        (mem_significantTokens_of_word hMem hWord)
        hStart).1
  rw [RoleTable.captureOf, hWord, get?_of_no_name hStarts]
  rfl

/- A word is highlighted as what it is. -/
theorem captureOf_of_means
    {byKind : Capture}
    (hKind : t.kind.capture? = some byKind)
    (hMeans : f.Means t c) :
    (RoleTable.ofFile f).captureOf t byKind = c := by
  have hToken := mem_significantTokens_of_word hMem hWord
  -- A leaf that is no name settles the kind of the word.
  have hLeaf
      {n : Node}
      {kind : TokenKind}
      (hHas : f.Has n)
      (hLeafKind : n.leafKind? = some kind)
      (hSpan : n.span = t.span)
      (hOther : n.identifier? = none)
      (hCapture : kind.capture? = some c) :
      (RoleTable.ofFile f).captureOf t byKind = c := by
    have hSame :=
      (span_eq_and_kind_eq_of_leaf hParse
        (mem_nodes_iff.mpr hHas) hLeafKind hToken
        (congrArg Span.start hSpan)).2
    rw [hSame, hCapture] at hKind
    rw [captureOf_of_no_name hParse hMem hWord
      (span_ne_of_leaf hParse hHas hLeafKind hSpan hOther)]
    exact (Option.some.inj hKind).symm
  have hMarked
      (hMark :
        (RoleTable.ofFile f).get? t.span.start = some c) :
      (RoleTable.ofFile f).captureOf t byKind = c := by
    rw [RoleTable.captureOf, hWord, hMark]
    rfl
  cases c with
  | anyName =>
      rcases hMeans with ⟨i, hHas, hSpan, hNone⟩
      refine hMarked ?_
      rw [← hSpan]
      exact get?_of_no_role hParse hHas hNone
  | boolean =>
      rcases hMeans with ⟨b, hHas⟩
      exact hLeaf hHas rfl rfl rfl rfl
  | typeBuiltin =>
      rcases hMeans with ⟨p, hHas⟩
      exact hLeaf hHas rfl rfl rfl rfl
  | keyword =>
      rcases hMeans with ⟨hName, hLiteral, hPrimitive⟩
      rw [captureOf_of_no_name hParse hMem hWord hName]
      rcases word_cases hParse hMem hWord with
        ⟨i, hHas, hSpan, -⟩ | ⟨l, hHas, hSpan, -⟩ |
          ⟨p, hHas, -⟩ | ⟨-, hSame⟩ | ⟨k, -, hSame⟩
      · exact absurd hSpan (hName i hHas)
      · exact absurd hSpan (hLiteral l hHas)
      · exact absurd hHas (hPrimitive p)
      · rw [hSame] at hKind
        exact (Option.some.inj hKind).symm
      · rw [hSame] at hKind
        exact (Option.some.inj hKind).symm
  | _ =>
      rcases hMeans with ⟨i, hRole, hSpan⟩
      refine hMarked ?_
      rw [← hSpan]
      exact get?_of_hasRole hParse hRole

end Words

end SourceFile

------------------------------------------------------------
-- Highlights
------------------------------------------------------------

section Sources

variable {source : String}

/- The table of a text that parses is that of its file. -/
theorem RoleTable.ofString_of_ok
    {f : SourceFile}
    (hParse :
      SourceFile.parse source defaultLimit = .ok f) :
    ofString source = ofFile f := by
  delta ofString
  rw [hParse]

/- A text that does not parse marks nothing. -/
theorem RoleTable.ofString_of_error
    {e : SyntaxError}
    (hParse :
      SourceFile.parse source defaultLimit = .error e) :
    ofString source = ∅ := by
  delta ofString
  rw [hParse]

end Sources

/- A highlight shows a token, by its mark or its kind. -/
theorem RoleTable.capture_of_mem
    {table : RoleTable}
    {ts : List Token}
    {highlights : List Highlight}
    (hOk : table.highlight ts = .ok highlights)
    {h : Highlight}
    (hMem : h ∈ highlights) :
    h.token ∈ ts ∧
      ∃ byKind,
        h.token.kind.capture? = some byKind ∧
        h.capture = table.captureOf h.token byKind := by
  induction ts generalizing highlights with
  | nil =>
      cases hOk
      cases hMem
  | cons t ts ih =>
      rw [RoleTable.highlight] at hOk
      split at hOk
      next => cases hOk
      next =>
        split at hOk
        next =>
          rcases ih hOk hMem with ⟨hToken, hCapture⟩
          exact ⟨.tail _ hToken, hCapture⟩
        next byKind hKind =>
          cases hRest : table.highlight ts with
          | error e =>
              rw [hRest] at hOk
              cases hOk
          | ok rest =>
              rw [hRest] at hOk
              cases hOk
              rcases List.mem_cons.mp hMem with rfl | hMem
              · exact ⟨.head _, byKind, hKind, rfl⟩
              · rcases ih hRest hMem with
                  ⟨hToken, hCapture⟩
                exact ⟨.tail _ hToken, hCapture⟩

/- A token that is no word is shown by its kind. -/
theorem RoleTable.captureOf_of_no_word
    (table : RoleTable)
    {t : Token}
    (hNone : t.kind.word? = none)
    (byKind : Capture) :
    table.captureOf t byKind = byKind := by
  rw [captureOf, hNone]

/- An empty table shows all tokens by their kinds. -/
theorem RoleTable.captureOf_empty
    (t : Token)
    (byKind : Capture) :
    captureOf ∅ t byKind = byKind := by
  rw [captureOf]
  cases t.kind.word? with
  | none => rfl
  | some word =>
      rw [Std.HashMap.get?_eq_getElem?,
        Std.HashMap.getElem?_empty]
      rfl

/-
  The words of a text that parses are highlighted by what
  they are in the file, and those that are shown as keywords
  are keywords that the grammar asks for, or wildcards.  If
  a text has no lexical error but does not parse, all tokens
  are highlighted by their kinds; a token that is no word is
  so in any case.
-/
theorem highlight_shows_roles
    (source : String) :
    (∀ f,
      SourceFile.parse source defaultLimit = .ok f →
      ∃ highlights,
        highlight source = .ok highlights ∧
        highlights.map Highlight.token =
          shownTokens source ∧
        ∀ h ∈ highlights, ∀ word,
          h.token.kind.word? = some word →
          (∀ c, h.capture = c ↔ f.Means h.token c) ∧
          (h.capture = .keyword →
            (∃ k, k ≠ .underscore ∧
              h.token.kind = .keyword k) ∨
            f.Has (.pattern (.wildcard h.token.span)) ∧
              h.token.kind = .keyword .underscore)) ∧
    (∀ e,
      SourceFile.parse source defaultLimit = .error e →
      NoErrors (tokenize source) →
      ∃ highlights,
        highlight source = .ok highlights ∧
        highlights.map Highlight.token =
          shownTokens source ∧
        ∀ h ∈ highlights,
          some h.capture = h.token.kind.capture?) ∧
    ∀ highlights,
      highlight source = .ok highlights →
      ∀ h ∈ highlights,
        h.token.kind.word? = none →
        some h.capture = h.token.kind.capture? := by
  refine ⟨?_, ?_, ?_⟩
  · intro f hParse
    rcases exists_highlight_of_noErrors
        (SourceFile.noErrors_of_parse hParse) with
      ⟨highlights, hOk, hTokens, -⟩
    refine ⟨highlights, hOk, hTokens, ?_⟩
    intro h hMem word hWord
    rw [highlight, RoleTable.ofString_of_ok hParse] at hOk
    rcases RoleTable.capture_of_mem hOk hMem with
      ⟨hToken, byKind, hKind, hCapture⟩
    have hShows
        (c : Capture)
        (hMeans : f.Means h.token c) :
        h.capture = c :=
      hCapture.trans
        (SourceFile.captureOf_of_means hParse hToken hWord
          hKind hMeans)
    have hIff (c : Capture) :
        h.capture = c ↔ f.Means h.token c := by
      refine ⟨?_, hShows c⟩
      rintro rfl
      rcases SourceFile.exists_means hParse hToken hWord with
        ⟨d, hMeans⟩
      rw [hShows d hMeans]
      exact hMeans
    refine ⟨hIff, fun hKeyword => ?_⟩
    rcases (hIff .keyword).mp hKeyword with
      ⟨hName, hLiteral, hPrimitive⟩
    rcases SourceFile.word_cases hParse hToken hWord with
      ⟨i, hHas, hSpan, -⟩ | ⟨l, hHas, hSpan, -⟩ |
        ⟨p, hHas, -⟩ | hWildcard | hConsumed
    · exact absurd hSpan (hName i hHas)
    · exact absurd hSpan (hLiteral l hHas)
    · exact absurd hHas (hPrimitive p)
    · exact .inr hWildcard
    · exact .inl hConsumed
  · intro e hParse hNone
    rcases exists_highlight_of_noErrors hNone with
      ⟨highlights, hOk, hTokens, -⟩
    refine ⟨highlights, hOk, hTokens, ?_⟩
    intro h hMem
    rw [highlight,
      RoleTable.ofString_of_error hParse] at hOk
    rcases RoleTable.capture_of_mem hOk hMem with
      ⟨-, byKind, hKind, hCapture⟩
    rw [hKind, hCapture, RoleTable.captureOf_empty]
  · intro highlights hOk h hMem hWord
    rcases RoleTable.capture_of_mem hOk hMem with
      ⟨-, byKind, hKind, hCapture⟩
    rw [hKind, hCapture,
      RoleTable.captureOf_of_no_word _ hWord]

end FeSyntax
