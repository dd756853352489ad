import FeSyntax.NamedTree
import Mathlib.Data.List.Basic

/-
  This file defines a reader of S-expressions and proves
  that it accepts exactly what is written: a text is read as
  a tree if and only if the tree is written as that text.
  So two trees with the same S-expression are equal.

  Key definitions include:
    * `NamedKind.ofName?`
    * `FieldName.ofLabel?`
    * `NamedTree.readLabel?`
    * `NamedTree.readWithin`
    * `NamedTree.read?`

  Key theorems include:
    * `NamedTree.readWithin_charsBefore`
    * `NamedTree.eq_chars_of_read`
    * `NamedTree.read?_eq_some_iff`
    * `NamedTree.render_injective`
-/

namespace FeSyntax

------------------------------------------------------------
-- Names
------------------------------------------------------------

/- The kind that trees name so. -/
def NamedKind.ofName?
    (name : String) : Option NamedKind :=
  all.find? (fun k => k.name = name)

/- The field that trees label so. -/
def FieldName.ofLabel?
    (label : String) : Option FieldName :=
  all.find? (fun f => f.label = label)

theorem NamedKind.ofName?_name
    (k : NamedKind) :
    ofName? k.name = some k := by
  cases k <;> decide

theorem NamedKind.name_of_ofName?
    {name : String}
    {k : NamedKind}
    (hKind : ofName? name = some k) :
    k.name = name := by
  have hFound := List.find?_some hKind
  exact of_decide_eq_true hFound

/- Different kinds have different names. -/
theorem NamedKind.name_injective :
    Function.Injective name := by
  intro k l hSame
  have hKind := ofName?_name k
  rw [hSame, ofName?_name] at hKind
  exact (Option.some.inj hKind).symm

/- The label of a field is read as that field. -/
theorem FieldName.ofLabel?_label
    (f : FieldName) :
    ofLabel? f.label = some f := by
  cases f <;> decide

theorem FieldName.label_of_ofLabel?
    {label : String}
    {f : FieldName}
    (hField : ofLabel? label = some f) :
    f.label = label := by
  have hFound := List.find?_some hField
  exact of_decide_eq_true hFound

------------------------------------------------------------
-- The Reader
------------------------------------------------------------

namespace NamedTree

/- Kinds and labels end at a blank or a mark. -/
def isNameChar
    (c : Char) : Bool :=
  c ≠ ' ' && c ≠ '(' && c ≠ ')' && c ≠ ':'

/- The name in front of other characters. -/
def frontName
    (cs : List Char) : String :=
  String.ofList (cs.takeWhile isNameChar)

/- The characters behind that name. -/
def behindName
    (cs : List Char) : List Char :=
  cs.dropWhile isNameChar

/- Read the label of a node, which may have none. -/
def readLabel? :
    List Char → Option (Option FieldName × List Char)
  | '(' :: cs => some (none, '(' :: cs)
  | cs =>
      match behindName cs with
      | ':' :: ' ' :: rest =>
          (FieldName.ofLabel? (frontName cs)).map
            (fun f => (some f, rest))
      | _ => none

mutual

/-
  Read one tree, and give it with the characters behind it.
  Every call takes a character, so `fuel` bounds the calls.
-/
def readWithin :
    Nat → List Char → Option (NamedTree × List Char)
  | 0, _ => none
  | fuel + 1, cs =>
      match readLabel? cs with
      | some (field, '(' :: body) =>
          match NamedKind.ofName? (frontName body),
              readAllWithin fuel (behindName body) with
          | some kind, some (children, rest) =>
              some (node field kind children, rest)
          | _, _ => none
      | _ => none

/-
  Read trees with a blank before each of them, up to the
  parenthesis that closes the node around them.
-/
def readAllWithin :
    Nat → List Char → Option (List NamedTree × List Char)
  | 0, _ => none
  | fuel + 1, cs =>
      match cs with
      | ')' :: rest => some ([], rest)
      | ' ' :: cs =>
          match readWithin fuel cs with
          | some (t, behind) =>
              (readAllWithin fuel behind).map
                (fun (ts, rest) => (t :: ts, rest))
          | none => none
      | _ => none

end

/- Read a text that is one tree and nothing else. -/
def read?
    (text : String) : Option NamedTree :=
  match readWithin (text.toList.length + 1) text.toList with
  | some (t, []) => some t
  | _ => none

------------------------------------------------------------
-- Names In Front
------------------------------------------------------------

/- The names of kinds are made of name characters. -/
theorem isNameChar_of_mem_name
    (k : NamedKind) :
    ∀ c ∈ k.name.toList, isNameChar c = true := by
  cases k <;> exact List.all_eq_true.mp (by decide)

theorem isNameChar_of_mem_label
    (f : FieldName) :
    ∀ c ∈ f.label.toList, isNameChar c = true := by
  cases f <;> exact List.all_eq_true.mp (by decide)

section Names

variable {name : String}
variable {c : Char}
variable {rest : List Char}
variable
  (hName : ∀ c ∈ name.toList, isNameChar c = true)
variable (hStop : isNameChar c = false)

include hName hStop

/- A name in front ends where another character stands. -/
theorem frontName_append :
    frontName (name.toList ++ c :: rest) = name := by
  rw [frontName, List.takeWhile_append_of_pos hName,
    List.takeWhile_cons_of_neg (by simp [hStop]),
    List.append_nil, String.ofList_toList]

/- What is behind it starts with that character. -/
theorem behindName_append :
    behindName (name.toList ++ c :: rest) = c :: rest := by
  rw [behindName, List.dropWhile_append_of_pos hName,
    List.dropWhile_cons_of_neg (by simp [hStop])]

end Names

/- A name and what is behind it are the whole text. -/
theorem append_behindName
    (cs : List Char) :
    (frontName cs).toList ++ behindName cs = cs := by
  rw [frontName, String.toList_ofList, behindName,
    List.takeWhile_append_dropWhile]

------------------------------------------------------------
-- Reading What Is Written
------------------------------------------------------------

/- Behind a kind stands a blank or a parenthesis. -/
theorem exists_charsBeforeAll_eq
    (rest : List Char)
    (ts : List NamedTree) :
    ∃ c behind,
      charsBeforeAll (')' :: rest) ts = c :: behind ∧
        isNameChar c = false := by
  cases ts with
  | nil => exact ⟨')', rest, rfl, rfl⟩
  | cons t ts => exact ⟨' ', _, rfl, rfl⟩

/-
  A label is read back, or found missing, in front of a
  parenthesis.
-/
theorem readLabel?_labelChars
    (field : Option FieldName)
    (cs : List Char) :
    readLabel? (labelChars field ++ '(' :: cs) =
      some (field, '(' :: cs) := by
  cases field with
  | none => rfl
  | some f =>
      have hLabel := isNameChar_of_mem_label f
      have hChars :
          labelChars (some f) ++ '(' :: cs =
            f.label.toList ++ ':' :: ' ' :: '(' :: cs := by
        simp [labelChars]
      have hFront :
          frontName (labelChars (some f) ++ '(' :: cs) =
            f.label := by
        rw [hChars]
        exact frontName_append hLabel rfl
      have hBehind :
          behindName (labelChars (some f) ++ '(' :: cs) =
            ':' :: ' ' :: '(' :: cs := by
        rw [hChars]
        exact behindName_append hLabel rfl
      have hStart :
          ∀ more, labelChars (some f) ++ '(' :: cs ≠
            '(' :: more := by
        intro more hSame
        rw [hChars] at hSame
        cases f <;> cases hSame
      rw [readLabel?, hBehind]
      · simp [hFront, FieldName.ofLabel?_label]
      · exact hStart

/- What is written is never shorter than what follows. -/
theorem length_le_charsBefore
    (rest : List Char)
    (t : NamedTree) :
    rest.length ≤ (charsBefore rest t).length := by
  rw [charsBefore_eq_append, List.length_append]
  exact Nat.le_add_left _ _

mutual

/- What is written is read back, whatever follows it. -/
theorem readWithin_charsBefore
    (fuel : Nat)
    (rest : List Char)
    (t : NamedTree)
    (hFuel : (charsBefore rest t).length < fuel) :
    readWithin fuel (charsBefore rest t) =
      some (t, rest) := by
  rcases t with ⟨field, kind, children⟩
  rcases fuel with _ | fuel
  · cases hFuel
  rcases exists_charsBeforeAll_eq rest children with
    ⟨c, behind, hNext, hStop⟩
  have hName := isNameChar_of_mem_name kind
  have hChildren :
      readAllWithin fuel
          (charsBeforeAll (')' :: rest) children) =
        some (children, rest) := by
    refine
      readAllWithin_charsBeforeAll fuel rest children ?_
    simp only [charsBefore, List.length_append,
      List.length_cons] at hFuel
    omega
  rw [charsBefore, List.append_assoc, readWithin]
  rw [hNext] at hChildren ⊢
  have hLabel :=
    readLabel?_labelChars field
      (kind.name.toList ++ c :: behind)
  simp only [List.cons_append] at hLabel ⊢
  rw [hLabel]
  simp only [frontName_append hName hStop,
    behindName_append hName hStop, NamedKind.ofName?_name,
    hChildren]

/-
  The children of a node are read back up to its closing
  parenthesis.
-/
theorem readAllWithin_charsBeforeAll
    (fuel : Nat)
    (rest : List Char)
    (ts : List NamedTree)
    (hFuel :
      (charsBeforeAll (')' :: rest) ts).length < fuel) :
    readAllWithin fuel (charsBeforeAll (')' :: rest) ts) =
      some (ts, rest) := by
  rcases fuel with _ | fuel
  · cases hFuel
  cases ts with
  | nil => rfl
  | cons t ts =>
      simp only [charsBeforeAll, List.length_cons] at hFuel
      have hRest :=
        length_le_charsBefore
          (charsBeforeAll (')' :: rest) ts) t
      have hTree :=
        readWithin_charsBefore fuel
          (charsBeforeAll (')' :: rest) ts) t (by omega)
      have hTrees :=
        readAllWithin_charsBeforeAll fuel rest ts (by omega)
      rw [charsBeforeAll, readAllWithin]
      simp only [hTree, hTrees, Option.map_some]

end

------------------------------------------------------------
-- Writing What Was Read
------------------------------------------------------------

/- A label that was read was written that way. -/
theorem eq_labelChars_of_readLabel?
    {cs rest : List Char}
    {field : Option FieldName}
    (hRead : readLabel? cs = some (field, rest)) :
    cs = labelChars field ++ rest := by
  unfold readLabel? at hRead
  split at hRead
  · cases hRead
    rfl
  · split at hRead
    next more hBehind =>
      rcases Option.map_eq_some_iff.mp hRead with
        ⟨f, hField, hPair⟩
      cases hPair
      have hSplit := append_behindName cs
      rw [hBehind, ← FieldName.label_of_ofLabel? hField]
        at hSplit
      rw [← hSplit, labelChars, List.append_assoc]
      rfl
    next => cases hRead

/- What is read back is what was written. -/
theorem eq_chars_of_read
    (fuel : Nat) :
    (∀ cs rest t,
      readWithin fuel cs = some (t, rest) →
      cs = charsBefore rest t) ∧
    ∀ cs rest ts,
      readAllWithin fuel cs = some (ts, rest) →
      cs = charsBeforeAll (')' :: rest) ts := by
  induction fuel with
  | zero =>
      constructor
      · intro cs rest t hRead
        cases hRead
      · intro cs rest ts hRead
        cases hRead
  | succ fuel ih =>
      rcases ih with ⟨ihTree, ihTrees⟩
      constructor
      · intro cs rest t hRead
        rw [readWithin] at hRead
        split at hRead
        next field body hLabel =>
          split at hRead
          next kind children more hKind hChildren =>
            cases hRead
            have hBehind := ihTrees _ _ _ hChildren
            have hSplit := append_behindName body
            rw [hBehind, ← NamedKind.name_of_ofName? hKind]
              at hSplit
            rw [eq_labelChars_of_readLabel? hLabel,
              charsBefore, ← hSplit, List.append_assoc]
            rfl
          next => cases hRead
        next => cases hRead
      · intro cs rest ts hRead
        unfold readAllWithin at hRead
        split at hRead
        next more =>
          cases hRead
          rfl
        next more =>
          split at hRead
          next t behind hTree =>
            rcases Option.map_eq_some_iff.mp hRead with
              ⟨⟨ts', rest'⟩, hTrees, hPair⟩
            cases hPair
            rw [charsBeforeAll, ← ihTrees _ _ _ hTrees,
              ← ihTree _ _ _ hTree]
          next => cases hRead
        · cases hRead

------------------------------------------------------------
-- Texts
------------------------------------------------------------

/- A text is read as a tree if the tree is written so. -/
theorem read?_eq_some_iff
    {text : String}
    {t : NamedTree} :
    read? text = some t ↔ text = t.render := by
  constructor
  · intro hRead
    unfold read? at hRead
    split at hRead
    next t' hTree =>
      cases hRead
      have hChars := (eq_chars_of_read _).1 _ _ _ hTree
      rw [render, chars, ← hChars, String.ofList_toList]
    next => cases hRead
  · rintro rfl
    rw [read?, render, String.toList_ofList, chars,
      readWithin_charsBefore _ [] t (Nat.lt_succ_self _)]

/- Different trees are written differently. -/
theorem render_injective :
    Function.Injective render := by
  intro t u hSame
  have hRead := read?_eq_some_iff.mpr hSame
  rw [read?_eq_some_iff.mpr rfl] at hRead
  exact Option.some.inj hRead

end NamedTree

end FeSyntax
