import Mathlib.Data.List.Basic
import FeSyntax.Grammar.Basic

/-
  This file proves what numbers say about the tables of a
  grammar.  An entry has a number that leads back to it if
  it is not behind the entries that can be numbered, and a
  grammar is valid if all entries that trees need are such.

  Key definitions include:
    * `Grammar.NumbersKind`
    * `Grammar.NumbersField`

  Key theorems include:
    * `Grammar.numbersKind_iff`
    * `Grammar.numbersField_iff`
    * `Grammar.validate_eq_ok_iff`
-/

namespace FeSyntax

------------------------------------------------------------
-- First Places
------------------------------------------------------------

section FirstPlaces

variable {α : Type}
variable [BEq α]
variable [LawfulBEq α]
variable {xs : List α}
variable {x : α}

/- At the first place of an entry the entry is found. -/
theorem getElem?_of_findIdx?_eq_some
    {i : Nat}
    (hFound : xs.findIdx? (· == x) = some i) :
    xs[i]? = some x := by
  rcases List.findIdx?_eq_some_iff_getElem.mp hFound with
    ⟨hBelow, hSame, _⟩
  rw [List.getElem?_eq_getElem hBelow, eq_of_beq hSame]

/- What is found below a place is among those before it. -/
theorem exists_findIdx?_lt_iff
    {n : Nat} :
    (∃ i < n, xs.findIdx? (· == x) = some i) ↔
      x ∈ xs.take n := by
  constructor
  · rintro ⟨i, hBelow, hFound⟩
    have hPlace := getElem?_of_findIdx?_eq_some hFound
    have hTaken : (xs.take n)[i]? = some x := by
      rw [List.getElem?_take_of_lt hBelow, hPlace]
    exact List.mem_of_getElem? hTaken
  · intro hTaken
    have hMem : x ∈ xs := List.mem_of_mem_take hTaken
    refine
      ⟨xs.findIdx (· == x),
        (List.mem_take_iff_idxOf_lt hMem).mp hTaken, ?_⟩
    apply List.findIdx?_eq_some_of_exists
    exact ⟨x, hMem, beq_self_eq_true x⟩

end FirstPlaces

namespace Grammar

variable {g : Grammar}

/- A number that is too big for its type is not used. -/
theorem usableId?_eq_some_iff
    {id id' : Nat} :
    usableId? id = some id' ↔ id' = id ∧ id ≤ maxId := by
  by_cases hUsable : id ≤ maxId
  · simp [usableId?, hUsable, eq_comm]
  · simp [usableId?, hUsable]

------------------------------------------------------------
-- Numbers Of Kinds
------------------------------------------------------------

/- An entry has a number that leads back to the entry. -/
def NumbersKind
    (g : Grammar)
    (entry : KindEntry) : Prop :=
  ∃ id ≤ maxId,
    g.kindId? entry = some id ∧ g.kindAt? id = some entry

/- The number of a kind is its first place in the table. -/
theorem kindId?_eq_some_iff
    {entry : KindEntry}
    {id : Nat} :
    g.kindId? entry = some id ↔
      g.kinds.findIdx? (· == entry) = some id ∧
        id ≤ maxId := by
  rw [kindId?, Option.bind_eq_some_iff]
  simp only [usableId?_eq_some_iff]
  grind

/- A number is enough, because it leads back. -/
theorem numbersKind_of_kindId?
    {entry : KindEntry}
    {id : Nat}
    (hId : g.kindId? entry = some id) :
    g.NumbersKind entry := by
  rcases kindId?_eq_some_iff.mp hId with ⟨hFound, hUsable⟩
  exact
    ⟨id, hUsable, hId, getElem?_of_findIdx?_eq_some hFound⟩

/- The entries up to `maxId` are those with a number. -/
theorem numbersKind_iff
    {entry : KindEntry} :
    g.NumbersKind entry ↔
      entry ∈ g.kinds.take (maxId + 1) := by
  rw [← exists_findIdx?_lt_iff]
  constructor
  · rintro ⟨id, hUsable, hId, _⟩
    rcases kindId?_eq_some_iff.mp hId with ⟨hFound, _⟩
    exact ⟨id, Nat.lt_succ_of_le hUsable, hFound⟩
  · rintro ⟨id, hBelow, hFound⟩
    exact
      numbersKind_of_kindId?
        (kindId?_eq_some_iff.mpr
          ⟨hFound, Nat.le_of_lt_succ hBelow⟩)

instance
    (g : Grammar)
    (entry : KindEntry) :
    Decidable (g.NumbersKind entry) :=
  decidable_of_iff _ numbersKind_iff.symm

example :
    builtin.NumbersKind ⟨"block", true⟩ ∧
      ¬ builtin.NumbersKind ⟨"block", false⟩ := by
  decide

/- A table that is not too long numbers all its entries. -/
theorem numbersKind_of_mem
    {entry : KindEntry}
    (hShort : g.kinds.length ≤ maxId + 1)
    (hMem : entry ∈ g.kinds) :
    g.NumbersKind entry := by
  rw [numbersKind_iff, List.take_of_length_le hShort]
  exact hMem

------------------------------------------------------------
-- Numbers Of Fields
------------------------------------------------------------

/- A field has a number that leads back to the field. -/
def NumbersField
    (g : Grammar)
    (field : String) : Prop :=
  ∃ id ≤ maxId,
    g.fieldId? field = some id ∧ g.fieldAt? id = some field

/-
  The number of a field is one more than its place, because
  0 stands for no field.
-/
theorem fieldId?_eq_some_iff
    {field : String}
    {id : Nat} :
    g.fieldId? field = some id ↔
      ∃ index,
        g.fields.findIdx? (· == field) = some index ∧
          id = index + 1 ∧ index + 1 ≤ maxId := by
  rw [fieldId?, Option.bind_eq_some_iff]
  simp only [usableId?_eq_some_iff]

theorem numbersField_of_fieldId?
    {field : String}
    {id : Nat}
    (hId : g.fieldId? field = some id) :
    g.NumbersField field := by
  rcases fieldId?_eq_some_iff.mp hId with
    ⟨index, hFound, rfl, hUsable⟩
  exact
    ⟨index + 1, hUsable, hId,
      getElem?_of_findIdx?_eq_some hFound⟩

/- One number less is left, because fields start at 1. -/
theorem numbersField_iff
    {field : String} :
    g.NumbersField field ↔ field ∈ g.fields.take maxId := by
  rw [← exists_findIdx?_lt_iff]
  constructor
  · rintro ⟨id, _, hId, _⟩
    rcases fieldId?_eq_some_iff.mp hId with
      ⟨index, hFound, rfl, hUsable⟩
    exact ⟨index, hUsable, hFound⟩
  · rintro ⟨index, hBelow, hFound⟩
    exact
      numbersField_of_fieldId?
        (fieldId?_eq_some_iff.mpr
          ⟨index, hFound, rfl, hBelow⟩)

instance
    (g : Grammar)
    (field : String) :
    Decidable (g.NumbersField field) :=
  decidable_of_iff _ numbersField_iff.symm

/- All fields are numbered if there are few enough. -/
theorem numbersField_of_mem
    {field : String}
    (hShort : g.fields.length ≤ maxId)
    (hMem : field ∈ g.fields) :
    g.NumbersField field := by
  rw [numbersField_iff, List.take_of_length_le hShort]
  exact hMem

------------------------------------------------------------
-- Valid Grammars
------------------------------------------------------------

/-
  No kind is missing if all that trees need are numbered.
-/
theorem missingKind?_eq_none_iff :
    g.missingKind? = none ↔
      ∀ entry ∈ requiredKinds, g.NumbersKind entry := by
  rw [missingKind?, List.find?_eq_none]
  constructor
  · intro hNone entry hMem
    have hId := hNone entry hMem
    cases hFound : g.kindId? entry with
    | none => simp [hFound] at hId
    | some id => exact numbersKind_of_kindId? hFound
  · intro hAll entry hMem
    rcases hAll entry hMem with ⟨id, _, hId, _⟩
    simp [hId]

/-
  No field is missing if all that trees need are numbered.
-/
theorem missingField?_eq_none_iff :
    g.missingField? = none ↔
      ∀ field ∈ requiredFields, g.NumbersField field := by
  rw [missingField?, List.find?_eq_none]
  constructor
  · intro hNone field hMem
    have hId := hNone field hMem
    cases hFound : g.fieldId? field with
    | none => simp [hFound] at hId
    | some id => exact numbersField_of_fieldId? hFound
  · intro hAll field hMem
    rcases hAll field hMem with ⟨id, _, hId, _⟩
    simp [hId]

/-
  The checks are made in this order, up to the first that is
  not passed.
-/
theorem problem?_eq_none_iff :
    g.problem? = none ↔
      IsSupported g.version ∧
      g.name = requiredName ∧
      g.missingKind? = none ∧
      g.missingField? = none := by
  by_cases hVersion : IsSupported g.version
  · by_cases hName : g.name = requiredName
    · cases hKind : g.missingKind? with
      | none => simp [problem?, hVersion, hName, hKind]
      | some entry =>
          simp [problem?, hVersion, hName, hKind]
    · simp [problem?, hVersion, hName]
  · simp [problem?, hVersion]

/-
  A grammar is valid if it has a supported version, the
  right name, and a number for all that trees need.
-/
theorem validate_eq_ok_iff :
    g.validate = .ok () ↔
      IsSupported g.version ∧
      g.name = requiredName ∧
      (∀ entry ∈ requiredKinds, g.NumbersKind entry) ∧
      ∀ field ∈ requiredFields, g.NumbersField field := by
  rw [← missingKind?_eq_none_iff,
    ← missingField?_eq_none_iff, ← problem?_eq_none_iff,
    validate]
  cases g.problem? <;> simp

end Grammar

end FeSyntax
