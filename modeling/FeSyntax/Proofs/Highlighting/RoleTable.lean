import FeSyntax.Highlight
import Mathlib.Data.List.Basic

/-
  This file says what a table of roles holds.  At a place
  where a name has roles it holds the last of them, and at
  any other name it holds that it is a variable.  A visitor
  that fills one table as it passes the nodes, and never
  makes a variable of a name that has a role, ends with the
  same table.

  Key definitions include:
    * `RoleTable.lastAt`
    * `RoleTable.visit`

  Key theorems include:
    * `RoleTable.get?_insertRoles`
    * `RoleTable.lastAt_of_mem`
    * `RoleTable.get?_ofFile`
    * `RoleTable.get?_foldl_visit`
-/

namespace FeSyntax

namespace RoleTable

------------------------------------------------------------
-- Last Roles
------------------------------------------------------------

/- The last of the roles that names at a place have. -/
def lastAt
    (start : Nat) : Roles → Option Capture
  | [] => none
  | (i, capture) :: roles =>
      (lastAt start roles).or
        (if i.span.start = start then some capture
          else none)

/- Roles that are put in later hide the ones before. -/
theorem get?_insertRoles
    (table : RoleTable)
    (roles : Roles)
    (start : Nat) :
    (table.insertRoles roles).get? start =
      (lastAt start roles).or (table.get? start) := by
  induction roles generalizing table with
  | nil => rfl
  | cons role roles ih =>
      rcases role with ⟨i, capture⟩
      have hStep :
          table.insertRoles ((i, capture) :: roles) =
            insertRoles (table.insert i.span.start capture)
              roles :=
        rfl
      rw [hStep, ih, Std.HashMap.get?_insert, lastAt,
        Option.or_assoc]
      by_cases hHere : i.span.start = start <;>
        simp [hHere]

theorem lastAt_append
    (start : Nat)
    (roles roles' : Roles) :
    lastAt start (roles ++ roles') =
      (lastAt start roles').or (lastAt start roles) := by
  induction roles with
  | nil => simp [lastAt]
  | cons role roles ih =>
      rcases role with ⟨i, capture⟩
      rw [List.cons_append, lastAt, ih, lastAt,
        Option.or_assoc]

/- A place has no role if no role is at its start. -/
theorem lastAt_eq_none_iff
    {start : Nat}
    {roles : Roles} :
    lastAt start roles = none ↔
      ∀ role ∈ roles, role.1.span.start ≠ start := by
  induction roles with
  | nil => simp [lastAt]
  | cons role roles ih =>
      rcases role with ⟨i, capture⟩
      rw [lastAt, Option.or_eq_none_iff, ih,
        List.forall_mem_cons, and_comm]
      simp

/- Where no two roles share a place, each is the last. -/
theorem lastAt_of_mem
    {i : Identifier}
    {capture : Capture}
    {roles : Roles}
    (hOnce :
      (roles.map (fun role => role.1.span.start)).Nodup)
    (hMem : (i, capture) ∈ roles) :
    lastAt i.span.start roles = some capture := by
  induction roles with
  | nil => cases hMem
  | cons role roles ih =>
      rcases role with ⟨j, other⟩
      rw [List.map_cons, List.nodup_cons] at hOnce
      rcases hOnce with ⟨hFirst, hLater⟩
      rw [lastAt]
      rcases List.mem_cons.mp hMem with hHead | hTail
      · cases hHead
        have hNone : lastAt i.span.start roles = none := by
          refine lastAt_eq_none_iff.mpr ?_
          intro role hRole hSame
          exact hFirst
            (List.mem_map.mpr ⟨role, hRole, hSame⟩)
        rw [hNone, if_pos rfl]
        rfl
      · rw [ih hLater hTail]
        rfl

/- Names that all have one role. -/
theorem lastAt_rolesAs
    (start : Nat)
    (capture : Capture)
    (names : List Identifier) :
    lastAt start (Identifier.rolesAs capture names) =
      if ∃ i ∈ names, i.span.start = start then some capture
        else none := by
  induction names with
  | nil => rfl
  | cons i names ih =>
      have hStep :
          Identifier.rolesAs capture (i :: names) =
            (i, capture) ::
              Identifier.rolesAs capture names :=
        rfl
      rw [hStep, lastAt, ih]
      by_cases hLater : ∃ j ∈ names, j.span.start = start
      · have hSome : ∃ j ∈ i :: names, j.span.start = start :=
          List.exists_mem_cons_of_exists hLater
        rw [if_pos hLater, if_pos hSome]
        rfl
      · rw [if_neg hLater, Option.none_or]
        refine ite_cond_congr ?_
        simp only [List.exists_mem_cons_iff, hLater, or_false]

------------------------------------------------------------
-- Tables Of Files
------------------------------------------------------------

/-
  In the table of a file, the roles of its nodes hide the
  plain ones.
-/
theorem get?_ofFile
    (f : SourceFile)
    (start : Nat) :
    (ofFile f).get? start =
      (lastAt start f.roles).or
        (lastAt start f.plainRoles) := by
  rw [ofFile, get?_insertRoles, get?_insertRoles,
    Std.HashMap.get?_eq_getElem?,
    Std.HashMap.getElem?_empty, Option.or_none]

/-
  Mark the names of a node in passing.  A name on its own is
  marked as a variable unless its place has a mark.
-/
def visit
    (table : RoleTable)
    (n : Node) : RoleTable :=
  match n.identifier? with
  | some i => table.insertIfNew i.span.start .anyName
  | none => table.insertRoles n.roles

/- The names among nodes, as variables. -/
def plainRolesOf
    (ns : List Node) : Roles :=
  Identifier.rolesAs .anyName
    (ns.filterMap Node.identifier?)

/- A node puts in its own roles and those of its names. -/
theorem get?_visit
    (table : RoleTable)
    (n : Node)
    (start : Nat) :
    (table.visit n).get? start =
      (lastAt start n.roles).or
        ((table.get? start).or
          (lastAt start (plainRolesOf [n]))) := by
  cases hName : n.identifier? with
  | some i =>
      have hRoles : n.roles = [] := by
        cases n with
        | identifier j => rfl
        | _ => cases hName
      have hPlain :
          plainRolesOf [n] = [(i, .anyName)] := by
        rw [plainRolesOf, List.filterMap_cons_some hName]
        rfl
      simp only [visit, hName, hRoles, hPlain, lastAt,
        Std.HashMap.get?_eq_getElem?, Option.none_or,
        Std.HashMap.getElem?_insertIfNew, beq_iff_eq,
        Std.HashMap.mem_iff_isSome_getElem?]
      by_cases hHere : i.span.start = start
      · rw [hHere]
        cases table[start]? <;> simp
      · simp [hHere]
  | none =>
      have hPlain : plainRolesOf [n] = [] := by
        rw [plainRolesOf, List.filterMap_cons_none hName]
        rfl
      rw [visit, hName, hPlain, lastAt, Option.or_none]
      exact get?_insertRoles table n.roles start

/- Passing nodes, the last role of a place is kept. -/
theorem get?_foldl_visit
    (table : RoleTable)
    (ns : List Node)
    (start : Nat) :
    (ns.foldl visit table).get? start =
      (lastAt start (ns.flatMap Node.roles)).or
        ((table.get? start).or
          (lastAt start (plainRolesOf ns))) := by
  induction ns generalizing table with
  | nil => exact (Option.or_none).symm
  | cons n ns ih =>
      have hPlain :
          plainRolesOf (n :: ns) =
            plainRolesOf [n] ++ plainRolesOf ns := by
        rw [plainRolesOf, plainRolesOf, plainRolesOf,
          Identifier.rolesAs, Identifier.rolesAs,
          Identifier.rolesAs, ← List.map_append,
          ← List.filterMap_append, List.singleton_append]
      -- All of these are variables, so order is no matter.
      have hSwap :
          (lastAt start (plainRolesOf [n])).or
              (lastAt start (plainRolesOf ns)) =
            (lastAt start (plainRolesOf ns)).or
              (lastAt start (plainRolesOf [n])) := by
        rw [plainRolesOf, plainRolesOf, lastAt_rolesAs,
          lastAt_rolesAs]
        split_ifs <;> rfl
      rw [List.foldl_cons, ih, get?_visit,
        List.flatMap_cons, lastAt_append, hPlain,
        lastAt_append, ← hSwap]
      simp only [Option.or_assoc]

/- One pass over a file gives the table of the file. -/
theorem get?_foldl_nodes
    (f : SourceFile)
    (start : Nat) :
    (f.nodes.foldl visit ∅).get? start =
      (ofFile f).get? start := by
  rw [get?_foldl_visit, get?_ofFile,
    Std.HashMap.get?_eq_getElem?,
    Std.HashMap.getElem?_empty, Option.none_or]
  rfl

end RoleTable

end FeSyntax
