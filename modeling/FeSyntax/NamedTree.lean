import FeSyntax.NodeKind

/-
  This file defines named trees, which keep the named nodes
  of a syntax tree and the fields that label them, and their
  S-expressions: a node is written with its kind and its
  children in parentheses, behind the label of its field.

  Key definitions include:
    * `NamedTree`
    * `NamedTree.charsBefore`
    * `NamedTree.chars`
    * `NamedTree.render`
-/

namespace FeSyntax

------------------------------------------------------------
-- Named Trees
------------------------------------------------------------

/- A node with the label of its field, if it has one. -/
inductive NamedTree where
  | node
      (field : Option FieldName)
      (kind : NamedKind)
      (children : List NamedTree)
deriving Repr

namespace NamedTree

/- A node without children. -/
def leaf
    (field : Option FieldName)
    (kind : NamedKind) : NamedTree :=
  node field kind []

------------------------------------------------------------
-- S-Expressions
------------------------------------------------------------

/- The label before a node. -/
def labelChars : Option FieldName → List Char
  | some f => f.label.toList ++ [':', ' ']
  | none => []

mutual

/- Write an S-expression in front of other characters. -/
def charsBefore
    (rest : List Char) : NamedTree → List Char
  | node field kind children =>
      labelChars field ++
        '(' :: kind.name.toList ++
          charsBeforeAll (')' :: rest) children

/-
  Write S-expressions with a blank before each of them in
  front of other characters.
-/
def charsBeforeAll
    (rest : List Char) : List NamedTree → List Char
  | [] => rest
  | t :: ts => ' ' :: charsBefore (charsBeforeAll rest ts) t

end

mutual

/- What is written does not depend on what follows it. -/
theorem charsBefore_eq_append
    (rest : List Char)
    (t : NamedTree) :
    charsBefore rest t = charsBefore [] t ++ rest := by
  cases t with
  | node field kind children =>
      rw [charsBefore, charsBefore,
        charsBeforeAll_eq_append (')' :: rest) children,
        charsBeforeAll_eq_append [')'] children]
      simp [List.append_assoc]

/- The same for several S-expressions in a row. -/
theorem charsBeforeAll_eq_append
    (rest : List Char)
    (ts : List NamedTree) :
    charsBeforeAll rest ts = charsBeforeAll [] ts ++ rest := by
  cases ts with
  | nil => rfl
  | cons t ts =>
      rw [charsBeforeAll, charsBeforeAll,
        charsBeforeAll_eq_append rest ts,
        charsBefore_eq_append
          (charsBeforeAll [] ts ++ rest) t,
        charsBefore_eq_append (charsBeforeAll [] ts) t]
      simp [List.append_assoc]

end

/- The characters of an S-expression. -/
def chars
    (t : NamedTree) : List Char :=
  charsBefore [] t

/- The S-expression of a tree. -/
def render
    (t : NamedTree) : String :=
  String.ofList t.chars

end NamedTree

end FeSyntax
