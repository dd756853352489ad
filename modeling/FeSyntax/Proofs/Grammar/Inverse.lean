import FeSyntax.Proofs.Grammar.Verdict
import Mathlib.Data.Nat.Find
import Mathlib.Order.Bounds.Defs

/-
  This file proves that numbers and entries of a grammar
  lead to each other.  An entry has the number of its first
  place, or none if that place is too far behind to have a
  number.  So a number leads to an entry whose number is the
  same, or a smaller one if the entry stands there already.
  The places of fields are counted from 1, and those of
  kinds from 0.

  Key definitions include:
    * `IsFirstAt`

  Key theorems include:
    * `findIdx?_eq_some_iff_isFirstAt`
    * `exists_isFirstAt`
    * `Grammar.kindId?_eq_some_iff_isFirstAt`
    * `Grammar.fieldId?_eq_some_iff_isFirstAt`
    * `Grammar.ids_lead_to_names_and_back`
-/

namespace FeSyntax

------------------------------------------------------------
-- First Places
------------------------------------------------------------

section FirstPlaces

variable {α : Type}
variable {xs : List α}
variable {x : α}
variable {i j : Nat}

/- A value stands at a place, and at none in front of it. -/
def IsFirstAt
    (xs : List α)
    (x : α)
    (i : Nat) : Prop :=
  xs[i]? = some x ∧ ∀ j < i, xs[j]? ≠ some x

/- The first place is the least of all places. -/
theorem IsFirstAt.le
    (hFirst : IsFirstAt xs x i)
    (hPlace : xs[j]? = some x) :
    i ≤ j := by
  apply Nat.le_of_not_lt
  intro hBefore
  exact hFirst.2 j hBefore hPlace

/- A search for a value finds its first place. -/
theorem findIdx?_eq_some_iff_isFirstAt
    [BEq α]
    [LawfulBEq α] :
    xs.findIdx? (· == x) = some i ↔ IsFirstAt xs x i := by
  rw [List.findIdx?_eq_some_iff_getElem]
  constructor
  · intro hFound
    rcases hFound with ⟨hBelow, hSame, hBefore⟩
    constructor
    · rw [List.getElem?_eq_getElem hBelow, eq_of_beq hSame]
    · intro j hLess hPlace
      apply hBefore j hLess
      have hInside : j < xs.length :=
        Nat.lt_trans hLess hBelow
      rw [List.getElem?_eq_getElem hInside,
        Option.some.injEq] at hPlace
      rw [hPlace]
      exact beq_self_eq_true x
  · intro hFirst
    rcases hFirst with ⟨hPlace, hBefore⟩
    rcases List.getElem?_eq_some_iff.mp hPlace with
      ⟨hBelow, rfl⟩
    refine ⟨hBelow, beq_self_eq_true _, ?_⟩
    intro j hLess hSame
    apply hBefore j hLess
    have hInside : j < xs.length :=
      Nat.lt_trans hLess hBelow
    rw [List.getElem?_eq_getElem hInside, eq_of_beq hSame]

/- What stands somewhere stands at a first place. -/
theorem exists_isFirstAt
    (hPlace : xs[j]? = some x) :
    ∃ i ≤ j, IsFirstAt xs x i := by
  classical
  have hSome : ∃ i, xs[i]? = some x := ⟨j, hPlace⟩
  refine
    ⟨Nat.find hSome, Nat.find_min' hSome hPlace,
      Nat.find_spec hSome, ?_⟩
  intro i hLess
  exact Nat.find_min hSome hLess

/- The first place is this one if no earlier one is. -/
theorem IsFirstAt.eq_iff
    (hFirst : IsFirstAt xs x i)
    (hPlace : xs[j]? = some x) :
    i = j ↔ ∀ earlier < j, xs[earlier]? ≠ some x := by
  constructor
  · intro hSame
    rw [← hSame]
    exact hFirst.2
  · intro hNone
    apply Nat.le_antisymm (hFirst.le hPlace)
    apply Nat.le_of_not_lt
    intro hLess
    exact hNone i hLess hFirst.1

end FirstPlaces

namespace Grammar

variable {g : Grammar}
variable {id : Nat}

------------------------------------------------------------
-- Kinds
------------------------------------------------------------

section Kinds

variable {entry : KindEntry}

theorem kindId?_eq_some_iff_isFirstAt :
    g.kindId? entry = some id ↔
      IsFirstAt g.kinds entry id ∧ id ≤ 65535 := by
  rw [kindId?_eq_some_iff, findIdx?_eq_some_iff_isFirstAt]
  exact Iff.rfl

/- A kind at a place that counts has a number. -/
theorem exists_kindId?
    (hUsable : id ≤ 65535)
    (hPlace : g.kinds[id]? = some entry) :
    ∃ first ≤ id,
      g.kindId? entry = some first ∧
        (first = id ↔
          ∀ earlier < id,
            g.kinds[earlier]? ≠ some entry) := by
  rcases exists_isFirstAt hPlace with
    ⟨first, hLess, hFirst⟩
  refine ⟨first, hLess, ?_, hFirst.eq_iff hPlace⟩
  rw [kindId?_eq_some_iff_isFirstAt]
  exact ⟨hFirst, Nat.le_trans hLess hUsable⟩

/- The kind of an entry and whether it is named. -/
theorem kinds_of_kindAt?
    {kind : String}
    (hKind :
      (g.kindAt? id).map KindEntry.kind = some kind) :
    g.kinds[id]? = some ⟨kind, g.isNamedAt id⟩ := by
  rcases Option.map_eq_some_iff.mp hKind with
    ⟨entry, hPlace, rfl⟩
  unfold isNamedAt
  rw [hPlace]
  exact hPlace

end Kinds

------------------------------------------------------------
-- Fields
------------------------------------------------------------

section Fields

variable {field : String}

/- A number of a field is one more than a place. -/
theorem fieldAt?_eq_some_iff :
    g.fieldAt? id = some field ↔
      ∃ index, id = index + 1 ∧
        g.fields[index]? = some field := by
  cases id with
  | zero => simp [fieldAt?]
  | succ index => simp [fieldAt?]

theorem fieldId?_eq_some_iff_isFirstAt :
    g.fieldId? field = some id ↔
      ∃ index, id = index + 1 ∧
        IsFirstAt g.fields field index ∧ id ≤ 65535 := by
  rw [fieldId?_eq_some_iff]
  constructor
  · intro hFound
    rcases hFound with ⟨index, hFirst, rfl, hUsable⟩
    exact
      ⟨index, rfl,
        findIdx?_eq_some_iff_isFirstAt.mp hFirst, hUsable⟩
  · intro hFound
    rcases hFound with ⟨index, rfl, hFirst, hUsable⟩
    exact
      ⟨index, findIdx?_eq_some_iff_isFirstAt.mpr hFirst,
        rfl, hUsable⟩

/- A field with a number has a least one. -/
theorem exists_fieldId?
    (hUsable : id ≤ 65535)
    (hField : g.fieldAt? id = some field) :
    ∃ first ≤ id,
      g.fieldId? field = some first ∧
        (first = id ↔
          ∀ earlier < id,
            g.fieldAt? earlier ≠ some field) := by
  rcases fieldAt?_eq_some_iff.mp hField with
    ⟨index, rfl, hPlace⟩
  rcases exists_isFirstAt hPlace with
    ⟨first, hLess, hFirst⟩
  refine ⟨first + 1, Nat.succ_le_succ hLess, ?_, ?_⟩
  · rw [fieldId?_eq_some_iff_isFirstAt]
    exact ⟨first, rfl, hFirst, by omega⟩
  · rw [Nat.add_right_cancel_iff, hFirst.eq_iff hPlace]
    constructor
    · intro hNone earlier hBefore hSame
      rcases fieldAt?_eq_some_iff.mp hSame with
        ⟨place, rfl, hThere⟩
      exact hNone place (by omega) hThere
    · intro hNone place hBefore hThere
      apply hNone (place + 1) (by omega)
      exact fieldAt?_eq_some_iff.mpr ⟨place, rfl, hThere⟩

end Fields

------------------------------------------------------------
-- Main Result
------------------------------------------------------------

/-
  A kind has a number just if one of its places is not above
  65535, and then the number is the least place of it, which
  leads back to the kind.  From a number that leads to a
  kind one comes back to a number that is not greater, and
  to the same one just if the kind stands nowhere in front.
  The same holds of fields, whose numbers are one more than
  their places: the number 0 leads to none, and 65535 is the
  number of the last place that counts.
-/
theorem ids_lead_to_names_and_back
    (g : Grammar) :
    (∀ kind isNamed,
      ((∃ id, g.kindId? ⟨kind, isNamed⟩ = some id) ↔
        ∃ index ≤ 65535,
          g.kinds[index]? = some ⟨kind, isNamed⟩) ∧
      ∀ id, g.kindId? ⟨kind, isNamed⟩ = some id →
        id ≤ 65535 ∧
        IsLeast
          {index | g.kinds[index]? = some ⟨kind, isNamed⟩}
          id ∧
        (g.kindAt? id).map KindEntry.kind = some kind ∧
        g.isNamedAt id = isNamed) ∧
    (∀ id ≤ 65535, ∀ kind,
      (g.kindAt? id).map KindEntry.kind = some kind →
      ∃ first ≤ id,
        g.kindId? ⟨kind, g.isNamedAt id⟩ = some first ∧
        (first = id ↔
          ∀ earlier < id,
            g.kinds[earlier]? ≠
              some ⟨kind, g.isNamedAt id⟩)) ∧
    (∀ field,
      ((∃ id, g.fieldId? field = some id) ↔
        ∃ index ≤ 65534, g.fields[index]? = some field) ∧
      ∀ id, g.fieldId? field = some id →
        1 ≤ id ∧
        id ≤ 65535 ∧
        IsLeast {n | g.fieldAt? n = some field} id ∧
        IsLeast {index | g.fields[index]? = some field}
          (id - 1)) ∧
    (∀ id ≤ 65535, ∀ field,
      g.fieldAt? id = some field →
      ∃ first ≤ id,
        g.fieldId? field = some first ∧
        (first = id ↔
          ∀ earlier < id,
            g.fieldAt? earlier ≠ some field)) ∧
    g.fieldAt? 0 = none := by
  refine ⟨?_, ?_, ?_, ?_, rfl⟩
  · intro kind isNamed
    constructor
    · constructor
      · intro hId
        rcases hId with ⟨id, hId⟩
        rcases kindId?_eq_some_iff_isFirstAt.mp hId with
          ⟨hFirst, hUsable⟩
        exact ⟨id, hUsable, hFirst.1⟩
      · intro hPlace
        rcases hPlace with ⟨index, hUsable, hPlace⟩
        rcases exists_kindId? hUsable hPlace with
          ⟨first, -, hId, -⟩
        exact ⟨first, hId⟩
    · intro id hId
      rcases kindId?_eq_some_iff_isFirstAt.mp hId with
        ⟨hFirst, hUsable⟩
      have hThere : g.kindAt? id = some ⟨kind, isNamed⟩ :=
        hFirst.1
      refine
        ⟨hUsable, ⟨hFirst.1, fun _ => hFirst.le⟩, ?_, ?_⟩
      · rw [hThere]
        rfl
      · unfold isNamedAt
        rw [hThere]
        rfl
  · intro id hUsable kind hKind
    exact exists_kindId? hUsable (kinds_of_kindAt? hKind)
  · intro field
    constructor
    · constructor
      · intro hId
        rcases hId with ⟨id, hId⟩
        rcases fieldId?_eq_some_iff_isFirstAt.mp hId with
          ⟨index, rfl, hFirst, hUsable⟩
        exact ⟨index, by omega, hFirst.1⟩
      · intro hPlace
        rcases hPlace with ⟨index, hUsable, hPlace⟩
        have hField : g.fieldAt? (index + 1) = some field :=
          hPlace
        rcases exists_fieldId? (by omega) hField with
          ⟨first, -, hId, -⟩
        exact ⟨first, hId⟩
    · intro id hId
      rcases fieldId?_eq_some_iff_isFirstAt.mp hId with
        ⟨index, rfl, hFirst, hUsable⟩
      refine
        ⟨by omega, hUsable, ⟨hFirst.1, ?_⟩, hFirst.1,
          fun _ => hFirst.le⟩
      intro n hField
      rcases fieldAt?_eq_some_iff.mp hField with
        ⟨place, rfl, hPlace⟩
      exact Nat.succ_le_succ (hFirst.le hPlace)
  · intro id hUsable field hField
    exact exists_fieldId? hUsable hField

/-
  A grammar with more kinds and fields than numbers.  A kind
  is repeated over and over, and the last kind and the last
  field have no number.
-/
def overfull : Grammar where
  name := requiredName
  version := latestVersion
  kinds :=
    ⟨"block", false⟩ ::
      (List.replicate 65535 ⟨"block", true⟩ ++
        [⟨"late", true⟩])
  fields := List.replicate 65534 "pad" ++ ["edge", "late"]

theorem ids_lead_to_names_and_back_overfull :
    (overfull.kindAt? 65535).map KindEntry.kind =
        some "block" ∧
    overfull.kindId? ⟨"block", true⟩ = some 1 ∧
    overfull.kindId? ⟨"late", true⟩ = none ∧
    overfull.fieldAt? 65535 = some "edge" ∧
    overfull.fieldId? "edge" = some 65535 ∧
    overfull.fieldId? "late" = none := by
  rcases ids_lead_to_names_and_back overfull with
    ⟨hKinds, hKindsBack, hFields, hFieldsBack, -⟩
  have hFront :
      overfull.kinds[0]? = some ⟨"block", false⟩ := rfl
  have hRepeated :
      ∀ n < 65535,
        overfull.kinds[n + 1]? = some ⟨"block", true⟩ := by
    intro n hBelow
    unfold overfull
    rw [List.getElem?_cons_succ, List.getElem?_append_left
      (by rwa [List.length_replicate]),
      List.getElem?_replicate, if_pos hBelow]
  have hPad :
      ∀ n < 65534, overfull.fields[n]? = some "pad" := by
    intro n hBelow
    unfold overfull
    rw [List.getElem?_append_left
      (by rwa [List.length_replicate]),
      List.getElem?_replicate, if_pos hBelow]
  have hLast :
      overfull.kindAt? 65535 = some ⟨"block", true⟩ :=
    hRepeated 65534 (by decide)
  have hBlock :
      (overfull.kindAt? 65535).map KindEntry.kind =
        some "block" := by
    rw [hLast]
    rfl
  have hNamed : overfull.isNamedAt 65535 = true := by
    unfold isNamedAt
    rw [hLast]
    rfl
  have hPlace : overfull.fields[65534]? = some "edge" := by
    unfold overfull
    rw [List.getElem?_append_right
      (Nat.le_of_eq List.length_replicate),
      List.length_replicate]
    rfl
  have hEdge : overfull.fieldAt? 65535 = some "edge" :=
    hPlace
  refine ⟨hBlock, ?_, ?_, hEdge, ?_, ?_⟩
  · rcases hKindsBack 65535 (Nat.le_refl _) "block" hBlock
      with ⟨first, -, hId, -⟩
    rw [hNamed] at hId
    rcases (hKinds "block" true).2 first hId with
      ⟨-, ⟨hPlace, hLeast⟩, -, -⟩
    have hAtMost : first ≤ 1 :=
      hLeast (hRepeated 0 (by decide))
    have hNotZero : first ≠ 0 := by
      rintro rfl
      have hSame := hFront.symm.trans hPlace
      simp at hSame
    rw [hId]
    exact congrArg some (by omega)
  · rw [Option.eq_none_iff_forall_ne_some]
    intro id hId
    rcases (hKinds "late" true).1.mp ⟨id, hId⟩ with
      ⟨index, hUsable, hPlace⟩
    cases index with
    | zero =>
        rw [hFront] at hPlace
        simp at hPlace
    | succ n =>
        rw [hRepeated n hUsable] at hPlace
        simp at hPlace
  · rcases hFieldsBack 65535 (Nat.le_refl _) "edge" hEdge
      with ⟨first, -, hId, hSame⟩
    rw [hId]
    refine congrArg some (hSame.mpr ?_)
    intro earlier hBefore hField
    cases earlier with
    | zero => cases hField
    | succ n =>
        rw [fieldAt?, hPad n (by omega)] at hField
        exact absurd hField (by decide)
  · rw [Option.eq_none_iff_forall_ne_some]
    intro id hId
    rcases (hFields "late").1.mp ⟨id, hId⟩ with
      ⟨index, hUsable, hPlace⟩
    by_cases hPadded : index < 65534
    · rw [hPad index hPadded] at hPlace
      exact absurd hPlace (by decide)
    · have hIndex : index = 65534 := by omega
      rw [hIndex] at hPlace
      have hSame : some "edge" = some "late" :=
        hEdge.symm.trans hPlace
      exact absurd hSame (by decide)

end Grammar

end FeSyntax
