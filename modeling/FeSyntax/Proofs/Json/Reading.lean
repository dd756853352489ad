import FeSyntax.Json.Reader
import FeSyntax.Proofs.Json.Layout
import FeSyntax.Proofs.Json.Spelling

/-
  This file proves that a document that an encoder makes is
  read back from its text.  In any layout the text spells
  the lexemes of the document, and the machine that builds
  documents makes the document of these lexemes again.

  Key definitions include:
    * `Json.IsWritten`
    * `Json.lexemesBefore`

  Key theorems include:
    * `Json.Layout.spells_before`
    * `Json.Builder.run_lexemesBefore`
    * `Json.read?_of_layout`
    * `Json.read?_compact`
    * `Json.read?_pretty`
-/

namespace FeSyntax

namespace Json

------------------------------------------------------------
-- Written Documents
------------------------------------------------------------

/-
  The documents that encoders make: their numbers are
  natural numbers, and their strings and keys are texts.
-/
inductive IsWritten : Json → Prop where
  | null : IsWritten .null
  | bool
      (b : Bool) :
      IsWritten (.bool b)
  | ofNat
      (n : Nat) :
      IsWritten (.ofNat n)
  | ofText
      (s : String) :
      IsWritten (.ofText s)
  | array
      {items : List Json}
      (items_written : ∀ j ∈ items, IsWritten j) :
      IsWritten (.array items)
  | record
      {fields : List (String × Json)}
      (values_written : ∀ f ∈ fields, IsWritten f.2) :
      IsWritten (.record fields)

attribute [simp] IsWritten.null IsWritten.bool
attribute [simp] IsWritten.ofNat IsWritten.ofText

/- A tag in front of the fields of a record is a text. -/
theorem isWritten_tagged
    {fields : List (String × Json)}
    (key sort : String)
    (hWritten : ∀ f ∈ fields, f.2.IsWritten) :
    (record ((key, ofText sort) :: fields)).IsWritten :=
  .record
    (List.forall_mem_cons.mpr ⟨.ofText sort, hWritten⟩)

section Written

variable {α : Type}
variable {encode : α → Json}

@[simp] theorem isWritten_array_map
    {as : List α}
    (hWritten : ∀ a ∈ as, (encode a).IsWritten) :
    (array (as.map encode)).IsWritten :=
  .array (List.forall_mem_map.mpr hWritten)

/- A missing value can be written as well, as `null`. -/
@[simp] theorem isWritten_ofOption_map
    {x : Option α}
    (hWritten : ∀ a ∈ x, (encode a).IsWritten) :
    (ofOption (x.map encode)).IsWritten := by
  cases x with
  | none => exact .null
  | some a => exact hWritten a rfl

end Written

------------------------------------------------------------
-- Lexemes Of Documents
------------------------------------------------------------

mutual

/- The lexemes of a document in front of others. -/
def lexemesBefore
    (rest : List Lexeme) : Json → List Lexeme
  | null => .null :: rest
  | bool b => .bool b :: rest
  | number lexeme => .number lexeme :: rest
  | string body => .string body :: rest
  | array [] => .openArray :: .closeArray :: rest
  | array (item :: items) =>
      .openArray ::
        lexemesBefore (itemLexemesBefore rest items) item
  | object [] => .openObject :: .closeObject :: rest
  | object ((key, value) :: members) =>
      .openObject :: .string key :: .colon ::
        lexemesBefore (memberLexemesBefore rest members)
          value

/- The lexemes behind the first item of an array. -/
def itemLexemesBefore
    (rest : List Lexeme) : List Json → List Lexeme
  | [] => .closeArray :: rest
  | item :: items =>
      .comma ::
        lexemesBefore (itemLexemesBefore rest items) item

/- The lexemes behind the first member of an object. -/
def memberLexemesBefore
    (rest : List Lexeme) :
    List (String × Json) → List Lexeme
  | [] => .closeObject :: rest
  | (key, value) :: members =>
      .comma :: .string key :: .colon ::
        lexemesBefore (memberLexemesBefore rest members)
          value

end

------------------------------------------------------------
-- Spelled Documents
------------------------------------------------------------

namespace Layout

open Lexeme

variable (L : Layout)
variable {ls : List Lexeme}
variable {cs : List Char}

/-
  A lexeme of one character, in front of what is spelled.
-/
theorem spells_mark
    {l : Lexeme}
    {c : Char}
    (hSpelling : l.spelling = [c])
    (hWritten : l.IsWritten)
    (hNoNumber : ∀ lexeme, l ≠ .number lexeme)
    (hLater : Spells ls cs) :
    Spells (l :: ls) (c :: cs) := by
  have hLexeme :=
    Spells.lexeme hWritten
      (fun lexeme h => absurd h (hNoNumber lexeme)) hLater
  rw [hSpelling] at hLexeme
  exact hLexeme

/- The quotes around a text belong to its lexeme. -/
theorem spells_quoted
    (s : String)
    (hLater : Spells ls cs) :
    Spells (.string (Body.escape s) :: ls)
      (quotedBefore cs (Body.escape s)) := by
  have hLexeme :=
    Spells.lexeme (.string s) (nofun) hLater
  rw [spelling, List.cons_append, List.append_assoc]
    at hLexeme
  exact hLexeme

/- The blanks that a layout puts in spell nothing. -/
theorem spells_line
    (level : Nat)
    (hLater : Spells ls cs) :
    Spells ls (L.line level ++ cs) :=
  hLater.blanks (L.line_blank level)

/-
  A number ends at the blanks or at the mark behind them.
-/
theorem endsNumber_line
    (level : Nat)
    {c : Char}
    (hEnd : ¬ ContinuesNumber c)
    (rest : List Char) :
    EndsNumber (L.line level ++ c :: rest) := by
  cases hLine : L.line level with
  | nil => exact endsNumber_cons hEnd rest
  | cons d ds =>
      refine endsNumber_cons ?_ _
      apply not_continuesNumber_of_isBlank
      apply L.line_blank level
      rw [hLine]
      exact .head _

/- What stands behind an item is a comma or a bracket. -/
theorem endsNumber_itemsBefore
    (level : Nat)
    (items : List Json) :
    EndsNumber (L.itemsBefore level cs items) := by
  cases items with
  | nil => exact L.endsNumber_line level (by decide) cs
  | cons item items => exact endsNumber_cons (by decide) _

/- What stands behind a member is a comma or a brace. -/
theorem endsNumber_membersBefore
    (level : Nat)
    (members : List (String × Json)) :
    EndsNumber (L.membersBefore level cs members) := by
  cases members with
  | nil => exact L.endsNumber_line level (by decide) cs
  | cons member members =>
      exact endsNumber_cons (by decide) _

/-
  A document spells its lexemes in front of others, at every
  level, unless what follows goes on with a number.
-/
def Spelled
    (j : Json) : Prop :=
  ∀ level ls cs,
    EndsNumber cs →
    Spells ls cs →
    Spells (lexemesBefore ls j) (L.before level cs j)

/- Items with commas between them, in front of a bracket. -/
theorem spells_itemsBefore
    {items : List Json}
    (hItems : ∀ j ∈ items, L.Spelled j)
    (level : Nat)
    (hLater : Spells ls cs) :
    Spells (itemLexemesBefore ls items)
      (L.itemsBefore level cs items) := by
  induction items with
  | nil =>
      exact
        L.spells_line level
          (spells_mark rfl .closeArray nofun hLater)
  | cons item items ih =>
      rcases List.forall_mem_cons.mp hItems with
        ⟨hItem, hRest⟩
      refine spells_mark rfl .comma nofun ?_
      refine L.spells_line (level + 1) ?_
      exact
        hItem _ _ _ (L.endsNumber_itemsBefore level items)
          (ih hRest)

/- A key with its value, in front of other members. -/
theorem spells_member
    {value : Json}
    (key : String)
    (hValue : L.Spelled value)
    (level : Nat)
    (hEnds : EndsNumber cs)
    (hLater : Spells ls cs) :
    Spells
      (.string (Body.escape key) :: .colon ::
        lexemesBefore ls value)
      (L.line (level + 1) ++
        quotedBefore
          (':' ::
            (L.gap ++ L.before (level + 1) cs value))
          (Body.escape key)) := by
  refine L.spells_line (level + 1) (spells_quoted key ?_)
  refine spells_mark rfl .colon nofun ?_
  exact (hValue _ _ _ hEnds hLater).blanks L.gap_blank

/- Members with commas between them, in front of a brace. -/
theorem spells_membersBefore
    {fields : List (String × Json)}
    (hFields : ∀ f ∈ fields, L.Spelled f.2)
    (level : Nat)
    (hLater : Spells ls cs) :
    let members :=
      fields.map (fun f => (Body.escape f.1, f.2))
    Spells (memberLexemesBefore ls members)
      (L.membersBefore level cs members) := by
  induction fields with
  | nil =>
      exact
        L.spells_line level
          (spells_mark rfl .closeObject nofun hLater)
  | cons field fields ih =>
      rcases List.forall_mem_cons.mp hFields with
        ⟨hField, hRest⟩
      refine spells_mark rfl .comma nofun ?_
      exact
        L.spells_member field.1 hField level
          (L.endsNumber_membersBefore level _) (ih hRest)

/- By induction on how the document was made. -/
theorem spells_before
    {j : Json}
    (hWritten : j.IsWritten) :
    L.Spelled j := by
  induction hWritten with
  | null =>
      intro level ls cs hEnds hLater
      exact .lexeme .null nofun hLater
  | bool b =>
      intro level ls cs hEnds hLater
      have hLexeme := Spells.lexeme (.bool b) nofun hLater
      cases b <;> exact hLexeme
  | ofNat n =>
      intro level ls cs hEnds hLater
      exact .lexeme (.number n) (fun _ _ => hEnds) hLater
  | ofText s =>
      intro level ls cs hEnds hLater
      exact spells_quoted s hLater
  | @array items hItems ih =>
      intro level ls cs hEnds hLater
      cases items with
      | nil =>
          exact
            spells_mark rfl .openArray nofun
              (spells_mark rfl .closeArray nofun hLater)
      | cons item items =>
          rcases List.forall_mem_cons.mp ih with
            ⟨hItem, hRest⟩
          refine spells_mark rfl .openArray nofun ?_
          refine L.spells_line (level + 1) ?_
          exact
            hItem _ _ _
              (L.endsNumber_itemsBefore level items)
              (L.spells_itemsBefore hRest level hLater)
  | @record fields hFields ih =>
      intro level ls cs hEnds hLater
      cases fields with
      | nil =>
          exact
            spells_mark rfl .openObject nofun
              (spells_mark rfl .closeObject nofun hLater)
      | cons field fields =>
          rcases List.forall_mem_cons.mp ih with
            ⟨hField, hRest⟩
          refine spells_mark rfl .openObject nofun ?_
          exact
            L.spells_member field.1 hField level
              (L.endsNumber_membersBefore level _)
              (L.spells_membersBefore hRest level hLater)

end Layout

------------------------------------------------------------
-- Building Documents
------------------------------------------------------------

namespace Builder

/- Read lexemes in turn. -/
def run
    (b : Builder)
    (ls : List Lexeme) : Option Builder :=
  ls.foldlM step? b

theorem run_cons
    {b b' : Builder}
    {l : Lexeme}
    (hStep : b.step? l = some b')
    (ls : List Lexeme) :
    b.run (l :: ls) = b'.run ls := by
  rw [run, List.foldlM_cons, hStep]
  rfl

/-
  Where the first item of an array is due, a document is
  read as where any value is due.
-/
theorem run_firstItem
    (stack : List Frame)
    (ls : List Lexeme)
    (j : Json) :
    (firstItem stack).run (lexemesBefore ls j) =
      (value (.array [] :: stack)).run
        (lexemesBefore ls j) := by
  cases j with
  | array items => cases items <;> rfl
  | object members => cases members <;> rfl
  | _ => rfl

mutual

/- A document is built from its lexemes, on any stack. -/
theorem run_lexemesBefore
    (stack : List Frame)
    (ls : List Lexeme)
    (j : Json) :
    (value stack).run (lexemesBefore ls j) =
      (behind stack j).run ls := by
  cases j with
  | null => exact run_cons rfl ls
  | bool b => exact run_cons rfl ls
  | number lexeme => exact run_cons rfl ls
  | string body => exact run_cons rfl ls
  | array items =>
      cases items with
      | nil =>
          rw [lexemesBefore, run_cons rfl, run_cons rfl]
      | cons item items =>
          rw [lexemesBefore, run_cons rfl, run_firstItem,
            run_lexemesBefore, run_itemLexemesBefore]
          rfl
  | object members =>
      cases members with
      | nil =>
          rw [lexemesBefore, run_cons rfl, run_cons rfl]
      | cons member members =>
          rcases member with ⟨key, value⟩
          rw [lexemesBefore, run_cons rfl, run_cons rfl,
            run_cons rfl, run_lexemesBefore,
            run_memberLexemesBefore]
          rfl

/- Further items are added to the array that is open. -/
theorem run_itemLexemesBefore
    (stack : List Frame)
    (before : List Json)
    (last : Json)
    (ls : List Lexeme)
    (items : List Json) :
    (behind (.array before :: stack) last).run
        (itemLexemesBefore ls items) =
      (behind stack
        (.array ((last :: before).reverse ++ items))).run
          ls := by
  cases items with
  | nil =>
      rw [itemLexemesBefore, run_cons rfl, List.append_nil]
  | cons item items =>
      rw [itemLexemesBefore, run_cons rfl,
        run_lexemesBefore, run_itemLexemesBefore,
        List.reverse_cons, List.append_assoc]
      rfl

/- Further members are added to the object that is open. -/
theorem run_memberLexemesBefore
    (stack : List Frame)
    (before : List (String × Json))
    (name : String)
    (last : Json)
    (ls : List Lexeme)
    (members : List (String × Json)) :
    (behind (.object before name :: stack) last).run
        (memberLexemesBefore ls members) =
      (behind stack
        (.object
          (((name, last) :: before).reverse ++
            members))).run ls := by
  cases members with
  | nil =>
      rw [memberLexemesBefore, run_cons rfl,
        List.append_nil]
  | cons member members =>
      rcases member with ⟨key, value⟩
      rw [memberLexemesBefore, run_cons rfl, run_cons rfl,
        run_cons rfl, run_lexemesBefore,
        run_memberLexemesBefore, List.reverse_cons,
        List.append_assoc]
      rfl

end

end Builder

------------------------------------------------------------
-- Reading Texts
------------------------------------------------------------

/- What is laid out is read back. -/
theorem read?_of_layout
    (L : Layout)
    {text : String}
    {j : Json}
    (hText : text.toList = L.before 0 [] j)
    (hWritten : j.IsWritten) :
    read? text = some j := by
  have hSpells :
      Lexeme.Spells (lexemesBefore [] j) text.toList := by
    rw [hText]
    exact L.spells_before hWritten 0 [] [] nofun .nil
  have hRun := Builder.run_lexemesBefore [] [] j
  rw [read?, Lexeme.scanAll?_of_spells hSpells]
  exact congrArg (fun b => b.bind Builder.finish?) hRun

/- A compact document is read back. -/
theorem read?_compact
    {j : Json}
    (hWritten : j.IsWritten) :
    read? j.compact = some j :=
  read?_of_layout .oneLine (toList_compact j) hWritten

/- So is one that is written with one item a line. -/
theorem read?_pretty
    {j : Json}
    (hWritten : j.IsWritten) :
    read? j.pretty = some j :=
  read?_of_layout .indented (toList_pretty j) hWritten

end Json

end FeSyntax
