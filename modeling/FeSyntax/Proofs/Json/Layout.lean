import FeSyntax.Json.Lexeme
import FeSyntax.Json.Printer

/-
  This file defines layouts of JSON documents.  A layout
  says which blanks start a line at a level, and which ones
  stand behind a colon.  It proves that the two printers
  write documents in two layouts.

  Key definitions include:
    * `Json.Layout`
    * `Json.Layout.oneLine`
    * `Json.Layout.indented`
    * `Json.Layout.before`

  Key theorems include:
    * `Json.toList_compact`
    * `Json.toList_pretty`
-/

namespace FeSyntax

namespace Json

------------------------------------------------------------
-- Layouts
------------------------------------------------------------

/- The blanks at the start of a line, and behind a colon. -/
structure Layout where
  line : Nat → List Char
  gap : List Char
  line_blank :
    ∀ level, ∀ c ∈ line level, Lexeme.isBlank c = true
  gap_blank : ∀ c ∈ gap, Lexeme.isBlank c = true

namespace Layout

/- No blanks at all. -/
def oneLine : Layout where
  line := fun _ => []
  gap := []
  line_blank := by simp
  gap_blank := by simp

/- One item a line, with two blanks for each level. -/
def indented : Layout where
  line := fun level =>
    '\n' :: List.replicate (2 * level) ' '
  gap := [' ']
  line_blank := by
    intro level c hMem
    rcases List.mem_cons.mp hMem with rfl | hMem
    · rfl
    · rw [List.eq_of_mem_replicate hMem]
      rfl
  gap_blank := by
    intro c hMem
    rw [List.mem_singleton.mp hMem]
    rfl

/- A string with its quotes in front of other characters. -/
def quotedBefore
    (rest : List Char)
    (body : String) : List Char :=
  '"' :: (body.toList ++ '"' :: rest)

mutual

/- A document at a level in front of other characters. -/
def before
    (L : Layout)
    (level : Nat)
    (rest : List Char) : Json → List Char
  | .null => 'n' :: 'u' :: 'l' :: 'l' :: rest
  | .bool b => (boolText b).toList ++ rest
  | .number lexeme => lexeme.toList ++ rest
  | .string body => quotedBefore rest body
  | .array [] => '[' :: ']' :: rest
  | .array (item :: items) =>
      '[' :: (L.line (level + 1) ++
        L.before (level + 1)
          (L.itemsBefore level rest items) item)
  | .object [] => '\x7b' :: '\x7d' :: rest
  | .object ((key, value) :: members) =>
      '\x7b' :: (L.line (level + 1) ++
        quotedBefore
          (':' :: (L.gap ++
            L.before (level + 1)
              (L.membersBefore level rest members) value))
          key)

/- The items behind the first one. -/
def itemsBefore
    (L : Layout)
    (level : Nat)
    (rest : List Char) : List Json → List Char
  | [] => L.line level ++ ']' :: rest
  | item :: items =>
      ',' :: (L.line (level + 1) ++
        L.before (level + 1)
          (L.itemsBefore level rest items) item)

/- The members behind the first one. -/
def membersBefore
    (L : Layout)
    (level : Nat)
    (rest : List Char) :
    List (String × Json) → List Char
  | [] => L.line level ++ '\x7d' :: rest
  | (key, value) :: members =>
      ',' :: (L.line (level + 1) ++
        quotedBefore
          (':' :: (L.gap ++
            L.before (level + 1)
              (L.membersBefore level rest members) value))
          key)

end

end Layout

------------------------------------------------------------
-- The Two Printers
------------------------------------------------------------

open Layout

mutual

/- The compact printer appends the document on one line. -/
theorem writeCompact_append
    (out : String)
    (level : Nat)
    (rest : List Char)
    (j : Json) :
    (writeCompact out j).toList ++ rest =
      out.toList ++ oneLine.before level rest j := by
  cases j with
  | null => simp [writeCompact, before]
  | bool b => simp [writeCompact, before]
  | number lexeme => simp [writeCompact, before]
  | string body =>
      simp [writeCompact, before, writeString, quotedBefore]
  | array items =>
      cases items with
      | nil => simp [writeCompact, before]
      | cons item items =>
          rw [writeCompact,
            writeCompactItems_append _ level,
            writeCompact_append _ (level + 1)]
          simp [before, oneLine]
  | object members =>
      cases members with
      | nil => simp [writeCompact, before]
      | cons member members =>
          rcases member with ⟨key, value⟩
          rw [writeCompact,
            writeCompactMembers_append _ level,
            writeCompact_append _ (level + 1)]
          simp [before, oneLine, writeString, quotedBefore]

/- The items of an array are written behind a bracket. -/
theorem writeCompactItems_append
    (out : String)
    (level : Nat)
    (rest : List Char)
    (items : List Json) :
    (writeCompactItems out items).toList ++ rest =
      out.toList ++
        oneLine.itemsBefore level rest items := by
  cases items with
  | nil => simp [writeCompactItems, itemsBefore, oneLine]
  | cons item items =>
      rw [writeCompactItems,
        writeCompactItems_append _ level,
        writeCompact_append _ (level + 1)]
      simp [itemsBefore, oneLine]

/- The members of an object are written behind a brace. -/
theorem writeCompactMembers_append
    (out : String)
    (level : Nat)
    (rest : List Char)
    (members : List (String × Json)) :
    (writeCompactMembers out members).toList ++ rest =
      out.toList ++
        oneLine.membersBefore level rest members := by
  cases members with
  | nil => simp [writeCompactMembers, membersBefore, oneLine]
  | cons member members =>
      rcases member with ⟨key, value⟩
      rw [writeCompactMembers,
        writeCompactMembers_append _ level,
        writeCompact_append _ (level + 1)]
      simp [membersBefore, oneLine, writeString,
        quotedBefore]

end

theorem toList_writeLine
    (out : String)
    (level : Nat) :
    (writeLine out level).toList =
      out.toList ++ indented.line level := by
  simp [writeLine, indented]

mutual

/- The other printer appends it with one item a line. -/
theorem writePretty_append
    (out : String)
    (level : Nat)
    (rest : List Char)
    (j : Json) :
    (writePretty out level j).toList ++ rest =
      out.toList ++ indented.before level rest j := by
  cases j with
  | null => simp [writePretty, before]
  | bool b => simp [writePretty, before]
  | number lexeme => simp [writePretty, before]
  | string body =>
      simp [writePretty, before, writeString, quotedBefore]
  | array items =>
      cases items with
      | nil => simp [writePretty, before]
      | cons item items =>
          rw [writePretty, writePrettyItems_append,
            writePretty_append, toList_writeLine]
          simp [before]
  | object members =>
      cases members with
      | nil => simp [writePretty, before]
      | cons member members =>
          rcases member with ⟨key, value⟩
          rw [writePretty, writePrettyMembers_append,
            writePretty_append]
          simp [before, writeString, quotedBefore,
            toList_writeLine, indented]

/- The items of an array stand one level further in. -/
theorem writePrettyItems_append
    (out : String)
    (level : Nat)
    (rest : List Char)
    (items : List Json) :
    (writePrettyItems out level items).toList ++ rest =
      out.toList ++
        indented.itemsBefore level rest items := by
  cases items with
  | nil =>
      simp [writePrettyItems, itemsBefore, toList_writeLine]
  | cons item items =>
      rw [writePrettyItems, writePrettyItems_append,
        writePretty_append, toList_writeLine]
      simp [itemsBefore]

theorem writePrettyMembers_append
    (out : String)
    (level : Nat)
    (rest : List Char)
    (members : List (String × Json)) :
    (writePrettyMembers out level members).toList ++ rest =
      out.toList ++
        indented.membersBefore level rest members := by
  cases members with
  | nil =>
      simp [writePrettyMembers, membersBefore,
        toList_writeLine]
  | cons member members =>
      rcases member with ⟨key, value⟩
      rw [writePrettyMembers, writePrettyMembers_append,
        writePretty_append]
      simp [membersBefore, writeString, quotedBefore,
        toList_writeLine, indented]

end

/- The compact text is the layout without blanks. -/
theorem toList_compact
    (j : Json) :
    j.compact.toList = oneLine.before 0 [] j := by
  have hText := writeCompact_append "" 0 [] j
  rw [List.append_nil] at hText
  exact hText

/- The indented text is the layout with one item a line. -/
theorem toList_pretty
    (j : Json) :
    j.pretty.toList = indented.before 0 [] j := by
  have hText := writePretty_append "" 0 [] j
  rw [List.append_nil] at hText
  exact hText

end Json

end FeSyntax
