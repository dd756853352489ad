import FeSyntax.Proofs.Lexing.Relocated

/-
  This file proves that the line and the column of a token
  are those of the place where it starts, as they are read
  off the source text: the line counts the line feeds in
  front of it, and the column the characters in front of it
  on its line.

  Key definitions include:
    * `IsPosition`

  Key theorems include:
    * `Place.exists_lines_afterAll`
    * `Place.isPosition_afterAll`
    * `Scanner.exists_front_of_mem_tokens`
    * `isPosition_of_mem_tokenize`
-/

namespace FeSyntax

/-
  The line and the column of an offset in a source text.
  Some lines are complete in front of the offset, and then
  there is a part of its own line without a line feed.
-/
def IsPosition
    (source : String)
    (offset line column : Nat) : Prop :=
  ∃ lines part behind : String,
    source = lines ++ part ++ behind ∧
    (lines ++ part).utf8ByteSize = offset ∧
    (lines = "" ∨ ∃ front, lines = front ++ "\n") ∧
    '\n' ∉ part.toList ∧
    line = 1 + (lines ++ part).toList.count '\n' ∧
    column = 1 + part.length

------------------------------------------------------------
-- Places Behind Characters
------------------------------------------------------------

namespace Place

/-
  The column behind characters counts those of them that
  stand behind the last line feed.
-/
theorem exists_lines_afterAll
    (cs : List Char) :
    ∃ lines part : List Char,
      cs = lines ++ part ∧
      (lines = [] ∨ ∃ front, lines = front ++ ['\n']) ∧
      '\n' ∉ part ∧
      (start.afterAll cs).column = 1 + part.length := by
  induction cs using List.reverseRecOn with
  | nil => exact ⟨[], [], rfl, .inl rfl, by simp, rfl⟩
  | append_singleton cs c ih =>
      rw [afterAll_append, afterAll_cons, afterAll_nil]
      by_cases hLine : c = '\n'
      · subst hLine
        refine
          ⟨cs ++ ['\n'], [], by simp, .inr ⟨cs, rfl⟩,
            by simp, ?_⟩
        rw [after, if_pos rfl]
        rfl
      · rcases ih with
          ⟨lines, part, hSplit, hLines, hPart, hColumn⟩
        refine ⟨lines, part ++ [c], ?_, hLines, ?_, ?_⟩
        · rw [hSplit, List.append_assoc]
        · rw [List.mem_append, List.mem_singleton]
          rintro (hMem | hSame)
          · exact hPart hMem
          · exact hLine hSame.symm
        · rw [after, if_neg hLine]
          simp only [hColumn, List.length_append,
            List.length_singleton]
          omega

/- A place has the line and the column of its offset. -/
theorem isPosition_afterAll
    (before behind : List Char) :
    IsPosition (String.ofList (before ++ behind))
      (start.afterAll before).offset
      (start.afterAll before).line
      (start.afterAll before).column := by
  rcases exists_lines_afterAll before with
    ⟨lines, part, rfl, hLines, hPart, hColumn⟩
  refine
    ⟨String.ofList lines, String.ofList part,
      String.ofList behind, ?_, ?_, ?_, ?_, ?_, ?_⟩
  · rw [String.ofList_append, String.ofList_append]
  · rw [offset_afterAll, ← String.ofList_append]
    simp [start]
  · refine hLines.imp ?_ ?_
    · rintro rfl
      rfl
    · rintro ⟨front, rfl⟩
      exact ⟨String.ofList front, String.ofList_append⟩
  · rw [String.toList_ofList]
    exact hPart
  · rw [line_afterAll, ← String.ofList_append,
      String.toList_ofList]
    rfl
  · rw [hColumn, String.length_ofList]

end Place

------------------------------------------------------------
-- Tokens
------------------------------------------------------------

/- Every token starts at a place of the text. -/
theorem Scanner.exists_front_of_mem_tokens
    (s : Scanner)
    {front : List Char}
    (hPlace : s.place = Place.start.afterAll front)
    {t : Token}
    (hMem : t ∈ s.tokens) :
    ∃ before behind stop,
      front ++ s.rest = before ++ behind ∧
      t.span = .between (Place.start.afterAll before) stop := by
  revert front hMem
  refine tokens_induction
    (motive := fun s ts =>
      ∀ {front : List Char},
        s.place = Place.start.afterAll front →
        t ∈ ts →
        ∃ before behind stop,
          front ++ s.rest = before ++ behind ∧
          t.span =
            .between (Place.start.afterAll before) stop)
    s ?_ ?_
  · intro s hEnd front hPlace hMem
    rw [List.mem_singleton.mp hMem]
    refine ⟨front ++ s.rest, [], s.skipBlanks.place, ?_, ?_⟩
    · rw [List.append_nil]
    · rw [Place.afterAll_append, ← hPlace,
        ← (rest_of_end hEnd).2]
      rfl
  · intro s hMore ih front hPlace hMem
    rcases next_of_more hMore with
      ⟨gap, text, hRest, -, -, -, hSpan, hNext, -⟩
    rcases List.mem_cons.mp hMem with rfl | hLater
    · refine
        ⟨front ++ gap.toList, text.toList ++ s.next.2.rest,
          s.place.afterAll (gap ++ text).toList, ?_, ?_⟩
      · rw [hRest, String.toList_append]
        simp only [List.append_assoc]
      · rw [hSpan, Place.afterAll_append, ← hPlace]
    · have hBehind :
          s.next.2.place =
            Place.start.afterAll
              (front ++ (gap ++ text).toList) := by
        rw [hNext, Place.afterAll_append, ← hPlace]
      rcases ih hBehind hLater with
        ⟨before, behind, stop, hSplit, hToken⟩
      refine ⟨before, behind, stop, ?_, hToken⟩
      rw [hRest, ← List.append_assoc]
      exact hSplit

/- Every token has the line and the column of its start. -/
theorem isPosition_of_mem_tokenize
    {source : String}
    {t : Token}
    (hMem : t ∈ tokenize source) :
    IsPosition source t.span.start t.span.line
      t.span.column := by
  have hPlace :
      (Scanner.ofString source).place =
        Place.start.afterAll [] :=
    rfl
  rcases Scanner.exists_front_of_mem_tokens _ hPlace hMem with
    ⟨before, behind, stop, hSplit, hSpan⟩
  have hSource :
      source = String.ofList (before ++ behind) := by
    rw [← hSplit]
    exact String.ofList_toList.symm
  rw [hSource, hSpan]
  exact Place.isPosition_afterAll before behind

end FeSyntax
