import FeSyntax.Proofs.NamedTree.Reader

/-
  This file reads the kinds and the labels off the text of
  an S-expression, without reading it as a tree: a kind
  stands behind an opening parenthesis, and a label stands
  in front of a colon.  It proves that these are the kinds
  and the labels of the tree, every node before its
  children.

  Key definitions include:
    * `NamedTree.kinds`
    * `NamedTree.labels`
    * `NamedTree.writtenKinds`
    * `NamedTree.writtenLabels`

  Key theorems include:
    * `NamedTree.writtenKinds_render`
    * `NamedTree.writtenLabels_render`
-/

namespace FeSyntax

namespace NamedTree

------------------------------------------------------------
-- Kinds And Labels Of Trees
------------------------------------------------------------

mutual

/- The kinds of the nodes, a node before its children. -/
def kinds : NamedTree → List NamedKind
  | node _ kind children => kind :: kindsAll children

/- The kinds of the nodes of trees in turn. -/
def kindsAll : List NamedTree → List NamedKind
  | [] => []
  | t :: ts => kinds t ++ kindsAll ts

end

mutual

/- The labels of the nodes, a node before its children. -/
def labels : NamedTree → List FieldName
  | node field _ children =>
      field.toList ++ labelsAll children

/- The labels of the nodes of trees in turn. -/
def labelsAll : List NamedTree → List FieldName
  | [] => []
  | t :: ts => labels t ++ labelsAll ts

end

/- The kinds of two lists stand one behind the other. -/
theorem kindsAll_append
    (ts us : List NamedTree) :
    kindsAll (ts ++ us) = kindsAll ts ++ kindsAll us := by
  induction ts with
  | nil => rfl
  | cons t ts ih =>
      rw [List.cons_append, kindsAll, ih, kindsAll,
        List.append_assoc]

------------------------------------------------------------
-- Kinds And Labels Of Texts
------------------------------------------------------------

/- The names behind the opening parentheses of a text. -/
def writtenKinds : List Char → List String
  | [] => []
  | c :: cs =>
      if c = '(' then
        frontName cs :: writtenKinds cs
      else
        writtenKinds cs

/-
  The names in front of the colons of a text.  The name that
  was read last is kept in reverse.
-/
def labelsBehind
    (name : List Char) : List Char → List String
  | [] => []
  | c :: cs =>
      if isNameChar c then
        labelsBehind (c :: name) cs
      else if c = ':' then
        String.ofList name.reverse :: labelsBehind [] cs
      else
        labelsBehind [] cs

/- The names in front of the colons of a text. -/
def writtenLabels
    (cs : List Char) : List String :=
  labelsBehind [] cs

------------------------------------------------------------
-- Kinds That Are Written
------------------------------------------------------------

/- No node starts inside a name. -/
theorem writtenKinds_append_of_isNameChar
    {name : List Char}
    (rest : List Char)
    (hName : ∀ c ∈ name, isNameChar c = true) :
    writtenKinds (name ++ rest) = writtenKinds rest := by
  induction name with
  | nil => rfl
  | cons c name ih =>
      have hMark : c ≠ '(' := by
        rintro rfl
        cases hName _ (.head _)
      rw [List.cons_append, writtenKinds, if_neg hMark]
      exact ih fun d hMem => hName d (.tail _ hMem)

theorem writtenKinds_labelChars
    (field : Option FieldName)
    (rest : List Char) :
    writtenKinds (labelChars field ++ rest) =
      writtenKinds rest := by
  cases field with
  | none => rfl
  | some f =>
      rw [labelChars, List.append_assoc,
        writtenKinds_append_of_isNameChar _
          (isNameChar_of_mem_label f)]
      rfl

mutual

/-
  A node writes its kind and those below it, in front of
  what follows.
-/
theorem writtenKinds_charsBefore
    (rest : List Char)
    (t : NamedTree) :
    writtenKinds (charsBefore rest t) =
      t.kinds.map NamedKind.name ++ writtenKinds rest := by
  rcases t with ⟨field, kind, children⟩
  rcases exists_charsBeforeAll_eq rest children with
    ⟨c, behind, hNext, hStop⟩
  have hName := isNameChar_of_mem_name kind
  have hChildren :=
    writtenKinds_charsBeforeAll (')' :: rest) children
  rw [charsBefore, List.append_assoc,
    writtenKinds_labelChars, List.cons_append, writtenKinds,
    if_pos rfl, writtenKinds_append_of_isNameChar _ hName,
    hChildren, hNext, frontName_append hName hStop, kinds]
  rfl

theorem writtenKinds_charsBeforeAll
    (rest : List Char)
    (ts : List NamedTree) :
    writtenKinds (charsBeforeAll rest ts) =
      (kindsAll ts).map NamedKind.name ++
        writtenKinds rest := by
  cases ts with
  | nil => rfl
  | cons t ts =>
      have hFirst :=
        writtenKinds_charsBefore (charsBeforeAll rest ts) t
      have hBlank :
          writtenKinds (charsBeforeAll rest (t :: ts)) =
            writtenKinds
              (charsBefore (charsBeforeAll rest ts) t) :=
        rfl
      rw [hBlank, hFirst,
        writtenKinds_charsBeforeAll rest ts, kindsAll,
        List.map_append, List.append_assoc]

end

/- An S-expression shows the kinds of all nodes in order. -/
theorem writtenKinds_render
    (t : NamedTree) :
    writtenKinds t.render.toList =
      t.kinds.map NamedKind.name := by
  rw [render, String.toList_ofList, chars,
    writtenKinds_charsBefore]
  exact List.append_nil _

------------------------------------------------------------
-- Labels That Are Written
------------------------------------------------------------

/- Inside a name, its characters are only kept for later. -/
theorem labelsBehind_append_of_isNameChar
    {name : List Char}
    (before rest : List Char)
    (hName : ∀ c ∈ name, isNameChar c = true) :
    labelsBehind before (name ++ rest) =
      labelsBehind (name.reverse ++ before) rest := by
  induction name generalizing before with
  | nil => rfl
  | cons c name ih =>
      rw [List.cons_append, labelsBehind,
        if_pos (hName c (.head _)),
        ih _ fun d hMem => hName d (.tail _ hMem),
        List.reverse_cons, List.append_assoc]
      rfl

/- A mark that is no colon only ends a name. -/
theorem labelsBehind_cons_of_mark
    {c : Char}
    (name cs : List Char)
    (hName : isNameChar c = false)
    (hColon : c ≠ ':') :
    labelsBehind name (c :: cs) = writtenLabels cs := by
  rw [labelsBehind, hName, if_neg Bool.false_ne_true,
    if_neg hColon]
  rfl

/-
  A label is written if there is one, before the
  parenthesis.
-/
theorem writtenLabels_labelChars
    (field : Option FieldName)
    (rest : List Char) :
    writtenLabels (labelChars field ++ '(' :: rest) =
      field.toList.map FieldName.label ++
        writtenLabels rest := by
  cases field with
  | none => rfl
  | some f =>
      rw [writtenLabels, labelChars, List.append_assoc,
        labelsBehind_append_of_isNameChar _ _
          (isNameChar_of_mem_label f),
        List.append_nil, List.cons_append, labelsBehind,
        if_neg (by decide), if_pos rfl,
        List.reverse_reverse, String.ofList_toList]
      rfl

/- A kind is no label, because no colon stands behind it. -/
theorem writtenLabels_name
    (kind : NamedKind)
    (rest : List Char)
    (ts : List NamedTree) :
    writtenLabels
        (kind.name.toList ++
          charsBeforeAll (')' :: rest) ts) =
      writtenLabels (charsBeforeAll (')' :: rest) ts) := by
  rw [writtenLabels,
    labelsBehind_append_of_isNameChar _ _
      (isNameChar_of_mem_name kind)]
  cases ts with
  | nil =>
      rw [charsBeforeAll, writtenLabels,
        labelsBehind_cons_of_mark _ _ rfl (by decide),
        labelsBehind_cons_of_mark _ _ rfl (by decide)]
  | cons t ts =>
      rw [charsBeforeAll, writtenLabels,
        labelsBehind_cons_of_mark _ _ rfl (by decide),
        labelsBehind_cons_of_mark _ _ rfl (by decide)]

mutual

/-
  A node writes its label and those below it, in front of
  what follows.
-/
theorem writtenLabels_charsBefore
    (rest : List Char)
    (t : NamedTree) :
    writtenLabels (charsBefore rest t) =
      t.labels.map FieldName.label ++
        writtenLabels rest := by
  rcases t with ⟨field, kind, children⟩
  have hChildren :=
    writtenLabels_charsBeforeAll (')' :: rest) children
  have hClose :
      writtenLabels (')' :: rest) = writtenLabels rest :=
    labelsBehind_cons_of_mark _ _ rfl (by decide)
  rw [charsBefore, List.append_assoc, List.cons_append,
    writtenLabels_labelChars, writtenLabels_name, hChildren,
    hClose, labels, List.map_append, List.append_assoc]

theorem writtenLabels_charsBeforeAll
    (rest : List Char)
    (ts : List NamedTree) :
    writtenLabels (charsBeforeAll rest ts) =
      (labelsAll ts).map FieldName.label ++
        writtenLabels rest := by
  cases ts with
  | nil => rfl
  | cons t ts =>
      have hFirst :=
        writtenLabels_charsBefore (charsBeforeAll rest ts) t
      have hBlank :
          writtenLabels (charsBeforeAll rest (t :: ts)) =
            writtenLabels
              (charsBefore (charsBeforeAll rest ts) t) :=
        labelsBehind_cons_of_mark _ _ rfl (by decide)
      rw [hBlank, hFirst,
        writtenLabels_charsBeforeAll rest ts, labelsAll,
        List.map_append, List.append_assoc]

end

/- An S-expression shows all labels in order. -/
theorem writtenLabels_render
    (t : NamedTree) :
    writtenLabels t.render.toList =
      t.labels.map FieldName.label := by
  rw [render, String.toList_ofList, chars,
    writtenLabels_charsBefore]
  exact List.append_nil _

end NamedTree

end FeSyntax
