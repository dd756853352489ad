import FeSyntax.Span
import FeSyntax.Text.Slice

/-
  This file proves that byte offsets and characters agree:
  passing characters adds their bytes to an offset, and the
  slice between two offsets that stand between characters is
  the text that stands there.

  Key theorems include:
    * `Text.slice?_append`
    * `Text.exists_slice?`
    * `Place.offset_afterAll`
    * `Text.slice?_afterAll`
-/

namespace FeSyntax

------------------------------------------------------------
-- Slices Between Characters
------------------------------------------------------------

namespace Text

/- The bytes of a character in front of a text. -/
theorem utf8ByteSize_ofList_cons
    (c : Char)
    (cs : List Char) :
    (String.ofList (c :: cs)).utf8ByteSize =
      c.utf8Size + (String.ofList cs).utf8ByteSize := by
  rw [String.ofList_cons, String.utf8ByteSize_append,
    String.utf8ByteSize_singleton]

theorem dropBytes?_append
    (cs rest : List Char) :
    dropBytes? (String.ofList cs).utf8ByteSize
        (cs ++ rest) =
      some rest := by
  induction cs with
  | nil =>
      cases rest <;> simp [dropBytes?]
  | cons c cs ih =>
      have hPos := c.utf8Size_pos
      rw [utf8ByteSize_ofList_cons, List.cons_append,
        dropBytes?, if_neg (by omega), if_pos (by omega),
        Nat.add_sub_cancel_left, ih]

theorem takeBytes?_append
    (cs rest : List Char) :
    takeBytes? (String.ofList cs).utf8ByteSize
        (cs ++ rest) =
      some cs := by
  induction cs with
  | nil =>
      cases rest <;> simp [takeBytes?]
  | cons c cs ih =>
      have hPos := c.utf8Size_pos
      rw [utf8ByteSize_ofList_cons, List.cons_append,
        takeBytes?, if_neg (by omega), if_pos (by omega),
        Nat.add_sub_cancel_left, ih, Option.map_some]

/- The slice between two texts is what stands there. -/
theorem slice?_append
    (before middle behind : String) :
    slice? (before ++ middle ++ behind)
        before.utf8ByteSize
        (before ++ middle).utf8ByteSize =
      some middle := by
  have hStart := dropBytes?_append before.toList
    (middle.toList ++ behind.toList)
  have hStop :=
    takeBytes?_append middle.toList behind.toList
  rw [String.ofList_toList] at hStart hStop
  unfold slice?
  rw [String.utf8ByteSize_append, if_pos (by omega),
    String.toList_append, String.toList_append,
    List.append_assoc, hStart]
  simp only [Nat.add_sub_cancel_left, Option.bind_eq_bind,
    Option.bind_some, hStop, Option.pure_def,
    String.ofList_toList]

/-
  There is a slice between the ends of two fronts of a text,
  if they are in order.  It makes the one of the other.
-/
theorem exists_slice?
    {source front behind front' behind' : String}
    (hSplit : source = front ++ behind)
    (hSplit' : source = front' ++ behind')
    (hOrder : front.utf8ByteSize ≤ front'.utf8ByteSize) :
    ∃ middle,
      slice? source front.utf8ByteSize front'.utf8ByteSize =
        some middle ∧
      front' = front ++ middle := by
  have hFront : front.toList <+: source.toList :=
    ⟨behind.toList, by rw [hSplit, String.toList_append]⟩
  have hFront' : front'.toList <+: source.toList :=
    ⟨behind'.toList, by rw [hSplit', String.toList_append]⟩
  have hMiddle : ∃ middle, front' = front ++ middle := by
    rcases List.prefix_or_prefix_of_prefix hFront hFront' with
      ⟨more, hMore⟩ | ⟨more, hMore⟩
    · refine ⟨String.ofList more, ?_⟩
      rw [← String.toList_inj, String.toList_append,
        String.toList_ofList, hMore]
    · -- The second front is no longer, so it is the first.
      have hWhole : front = front' ++ String.ofList more := by
        rw [← String.toList_inj, String.toList_append,
          String.toList_ofList, hMore]
      have hNone : (String.ofList more).utf8ByteSize = 0 := by
        rw [hWhole, String.utf8ByteSize_append] at hOrder
        omega
      rw [String.utf8ByteSize_eq_zero_iff.mp hNone,
        String.append_empty] at hWhole
      exact ⟨"", by rw [String.append_empty, hWhole]⟩
  rcases hMiddle with ⟨middle, rfl⟩
  refine ⟨middle, ?_, rfl⟩
  rw [hSplit']
  exact slice?_append front middle behind'

end Text

------------------------------------------------------------
-- Places
------------------------------------------------------------

namespace Place

/- Passing characters adds their bytes to the offset. -/
theorem offset_afterAll
    (p : Place)
    (cs : List Char) :
    (p.afterAll cs).offset =
      p.offset + (String.ofList cs).utf8ByteSize := by
  induction cs generalizing p with
  | nil => simp
  | cons c cs ih =>
      have hStep :
          (p.after c).offset = p.offset + c.utf8Size := by
        unfold after
        split <;> rfl
      rw [afterAll_cons, ih, hStep,
        Text.utf8ByteSize_ofList_cons, Nat.add_assoc]

end Place

/- The slice between two places of a text. -/
theorem Text.slice?_afterAll
    {source : String}
    {before middle behind : List Char}
    (hSource :
      source.toList = before ++ (middle ++ behind)) :
    let p := Place.start.afterAll before
    slice? source p.offset (p.afterAll middle).offset =
      some (String.ofList middle) := by
  intro p
  have hSplit :
      source =
        String.ofList before ++ String.ofList middle ++
          String.ofList behind := by
    rw [← String.ofList_append, ← String.ofList_append,
      List.append_assoc, ← hSource, String.ofList_toList]
  have hStart :
      p.offset = (String.ofList before).utf8ByteSize := by
    rw [Place.offset_afterAll Place.start before]
    exact Nat.zero_add _
  rw [Place.offset_afterAll p middle, hStart,
    ← String.utf8ByteSize_append, hSplit]
  exact slice?_append _ _ _

end FeSyntax
