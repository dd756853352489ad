import FeSyntax.Proofs.NamedTree.Balance
import FeSyntax.Proofs.NamedTree.Rules

/-
  This file proves that the S-expression of a file renders
  what is shown of its rules, and nothing else is lost.  A
  writer that passes once over the rules, and only appends
  to what it has written, writes the same text.

  Key definitions include:
    * `RuleTree.opened`
    * `RuleTree.write`

  Key theorems include:
    * `RuleTree.write_eq_append`
    * `SourceFile.write_rule`
    * `SourceFile.read?_sexp`
    * `SourceFile.sexp_faithful`
-/

namespace FeSyntax

------------------------------------------------------------
-- Writing In One Pass
------------------------------------------------------------

namespace RuleTree

open NamedTree

/- A node starts behind a blank, unless it is the first. -/
def opened
    (written : List Char)
    (label : Option FieldName)
    (kind : NamedKind) : List Char :=
  (if written.isEmpty then [] else written ++ [' ']) ++
    (labelChars label ++ '(' :: kind.name.toList)

mutual

/- Append what is shown of a rule to what is written. -/
def write
    (outer : Option FieldName)
    (written : List Char) : RuleTree → List Char
  | named label kind parts =>
      writeAll none
          (opened written (label.or outer) kind) parts ++
        [')']
  | hidden label parts =>
      writeAll (label.or outer) written parts

/- Append what is shown of rules in turn. -/
def writeAll
    (outer : Option FieldName)
    (written : List Char) : List RuleTree → List Char
  | [] => written
  | r :: rs => writeAll outer (write outer written r) rs

end

/- Something is written as soon as a node is opened. -/
theorem opened_ne_nil
    (written : List Char)
    (label : Option FieldName)
    (kind : NamedKind) :
    opened written label kind ≠ [] := by
  simp [opened]

/- Children in a row are written one behind the other. -/
theorem charsBeforeAll_append
    (ts us : List NamedTree) :
    charsBeforeAll [] (ts ++ us) =
      charsBeforeAll [] ts ++ charsBeforeAll [] us := by
  induction ts with
  | nil => rfl
  | cons t ts ih =>
      rw [List.cons_append, charsBeforeAll_cons, ih,
        charsBeforeAll_cons]
      simp only [List.append_assoc]

/- What starts a node, with its children and its end. -/
theorem opened_append
    {written : List Char}
    (hSome : written ≠ [])
    (label : Option FieldName)
    (kind : NamedKind)
    (children : List NamedTree) :
    opened written label kind ++
        charsBeforeAll [] children ++ [')'] =
      written ++
        charsBeforeAll [] [.node label kind children] := by
  rw [charsBeforeAll_cons, chars_node,
    Parentheses.enclosed, opened]
  simp [hSome, charsBeforeAll]

mutual

/-
  Behind other characters, a writer appends the nodes that
  are shown, each with a blank before it.
-/
theorem write_eq_append
    (outer : Option FieldName)
    {written : List Char}
    (r : RuleTree)
    (hSome : written ≠ []) :
    r.write outer written =
      written ++ charsBeforeAll [] (r.shown outer) := by
  cases r with
  | named label kind parts =>
      rw [write,
        writeAll_eq_append none parts (opened_ne_nil _ _ _),
        opened_append hSome, shown]
  | hidden label parts =>
      exact writeAll_eq_append _ parts hSome

/- Rules in turn append the nodes that are shown of them. -/
theorem writeAll_eq_append
    (outer : Option FieldName)
    {written : List Char}
    (rs : List RuleTree)
    (hSome : written ≠ []) :
    writeAll outer written rs =
      written ++ charsBeforeAll [] (shownAll outer rs) := by
  cases rs with
  | nil => exact (List.append_nil _).symm
  | cons r rs =>
      have hFirst := write_eq_append outer r hSome
      have hLater : r.write outer written ≠ [] := by
        rw [hFirst]
        exact List.append_ne_nil_of_left_ne_nil hSome _
      rw [writeAll, writeAll_eq_append outer rs hLater,
        hFirst, shownAll_cons, charsBeforeAll_append,
        List.append_assoc]

end

end RuleTree

------------------------------------------------------------
-- Source Files
------------------------------------------------------------

namespace SourceFile

open RuleTree

/- The writer writes the S-expression of a file. -/
theorem write_rule
    (f : SourceFile) :
    f.rule.write none [] = f.sexp.toList := by
  rw [sexp, NamedTree.render, String.toList_ofList, named,
    NamedTree.chars_node, rule, RuleTree.write,
    writeAll_eq_append _ _ (opened_ne_nil _ _ _),
    Module.shownAll_definitionRules, opened]
  simp [Parentheses.enclosed]

/-
  The S-expression of a file is read back as its named tree.
-/
theorem read?_sexp
    (f : SourceFile) :
    NamedTree.read? f.sexp = some f.named :=
  NamedTree.read?_eq_some_iff.mpr rfl

/-
  The S-expression of a file is what one pass over its rules
  writes.  It is a single expression of a source file, which
  is open from its first to its last parenthesis, has no two
  blanks in a row, and is read back as what is shown of the
  rules.  So files are told apart by their S-expressions
  just as they are by their named trees.
-/
theorem sexp_faithful
    (f g : SourceFile) :
    f.rule.write none [] = f.sexp.toList ∧
      (NamedTree.read? f.sexp).toList =
        f.rule.shown none ∧
      (∃ children,
        NamedTree.read? f.sexp =
          some (.node none .sourceFile children)) ∧
      Parentheses.depth f.sexp.toList = 0 ∧
      (∀ front,
        front <+: f.sexp.toList →
        front ≠ [] →
        front ≠ f.sexp.toList →
        0 < Parentheses.depth front) ∧
      ¬ [' ', ' '] <:+: f.sexp.toList ∧
      NamedTree.read? f.sexp = some f.named ∧
      (f.sexp = g.sexp ↔ f.named = g.named) := by
  have hText : f.sexp.toList = f.named.chars :=
    String.toList_ofList
  have hRead := read?_sexp f
  refine ⟨write_rule f, ?_, ⟨_, hRead⟩, ?_, ?_, ?_, hRead,
    ?_⟩
  · rw [hRead, shown_rule]
    rfl
  · rw [hText]
    exact (NamedTree.isBalanced_chars _).closed
  · rw [hText]
    intro front hFront hSome hProper
    exact
      NamedTree.depth_pos_of_prefix hFront hSome hProper
  · rw [hText]
    exact (NamedTree.isSpaced_chars _).no_two_blanks
  · exact NamedTree.render_injective.eq_iff

end SourceFile

end FeSyntax
