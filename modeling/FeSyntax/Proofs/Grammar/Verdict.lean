import FeSyntax.Proofs.Grammar.Numbering

/-
  This file proves what is said of a grammar when it is
  checked.  There is a list of all that a grammar has to
  have, and the verdict is about the first item of the list
  that it does not have.  An entry counts where it stands
  first in its table, and only up to the last place that can
  be numbered.

  Key definitions include:
    * `Requirement`
    * `Requirement.all`
    * `Requirement.IsMet`
    * `Grammar.behindEntries`

  Key theorems include:
    * `Requirement.isMet_congr`
    * `Grammar.problem?_eq_find?`
    * `Grammar.validate_congr`
    * `Grammar.validate_behindEntries_iff`
    * `Grammar.validate_finds_first_failure`
-/

namespace FeSyntax

------------------------------------------------------------
-- Requirements
------------------------------------------------------------

/- What a grammar has to have. -/
inductive Requirement where
  | version
  | name
  | kind (entry : KindEntry)
  | field (label : String)

namespace Requirement

/- All that a grammar has to have, in the order of checks. -/
def all : List Requirement :=
  version :: name ::
    (NamedKind.all.map (fun k => kind ⟨k.name, true⟩) ++
      anonymousKinds.map (fun k => kind ⟨k, false⟩) ++
      FieldName.all.map (fun f => field f.label))

/-
  Whether a grammar has it.  There is one place less for
  fields than for kinds, because fields are counted from 1.
-/
def IsMet
    (g : Grammar) : Requirement → Prop
  | version => g.version = 13 ∨ g.version = 14
  | name => g.name = "fe"
  | kind entry => ∃ i ≤ 65535, g.kinds[i]? = some entry
  | field label => ∃ i ≤ 65534, g.fields[i]? = some label

/- What is said of a grammar that does not have it. -/
def error
    (g : Grammar) : Requirement → GrammarError
  | version => .unsupportedVersion g.version
  | name => .wrongName g.name
  | kind entry => .missingKind entry.kind
  | field label => .missingField label

------------------------------------------------------------
-- Places
------------------------------------------------------------

section Places

variable {α : Type}
variable {xs : List α}
variable {x : α}
variable {n : Nat}

/- What is at one of the first places is among them. -/
theorem exists_place_iff :
    (∃ i ≤ n, xs[i]? = some x) ↔ x ∈ xs.take (n + 1) := by
  rw [List.mem_take_iff_getElem]
  constructor
  · rintro ⟨i, hPlace, hEntry⟩
    rcases List.getElem?_eq_some_iff.mp hEntry with
      ⟨hInside, hSame⟩
    exact ⟨i, by omega, hSame⟩
  · rintro ⟨i, hBelow, hSame⟩
    have hInside : i < xs.length := by omega
    exact
      ⟨i, by omega,
        List.getElem?_eq_some_iff.mpr ⟨hInside, hSame⟩⟩

/- In a table that is not too long all places count. -/
theorem exists_place_iff_mem
    (hShort : xs.length ≤ n + 1) :
    (∃ i ≤ n, xs[i]? = some x) ↔ x ∈ xs := by
  rw [exists_place_iff, List.take_of_length_le hShort]

/- What is in a table has a place if its first one counts. -/
theorem exists_place_iff_idxOf
    [BEq α]
    [LawfulBEq α]
    (hMem : x ∈ xs) :
    (∃ i ≤ n, xs[i]? = some x) ↔ xs.idxOf x ≤ n := by
  rw [exists_place_iff, List.mem_take_iff_idxOf_lt hMem,
    Nat.lt_succ_iff]

end Places

------------------------------------------------------------
-- Grammars That Have It
------------------------------------------------------------

variable {g g' : Grammar}

theorem isMet_version_iff :
    version.IsMet g ↔ Grammar.IsSupported g.version := by
  simp only [IsMet, Grammar.IsSupported,
    Grammar.oldestVersion, Grammar.latestVersion]
  omega

theorem isMet_name_iff :
    name.IsMet g ↔ g.name = Grammar.requiredName :=
  Iff.rfl

theorem isMet_kind_iff
    {entry : KindEntry} :
    (kind entry).IsMet g ↔ g.NumbersKind entry := by
  rw [Grammar.numbersKind_iff]
  exact exists_place_iff

theorem isMet_field_iff
    {label : String} :
    (field label).IsMet g ↔ g.NumbersField label := by
  rw [Grammar.numbersField_iff]
  exact exists_place_iff

instance
    (g : Grammar)
    (r : Requirement) :
    Decidable (r.IsMet g) :=
  match r with
  | version => decidable_of_iff _ isMet_version_iff.symm
  | name => decidable_of_iff _ isMet_name_iff.symm
  | kind _ => decidable_of_iff _ isMet_kind_iff.symm
  | field _ => decidable_of_iff _ isMet_field_iff.symm

/- The tables that are required, one after the other. -/
theorem all_eq :
    all =
      version :: name ::
        (Grammar.requiredKinds.map kind ++
          Grammar.requiredFields.map field) := by
  simp only [all, Grammar.requiredKinds,
    Grammar.requiredFields, List.map_append, List.map_map]
  rfl

theorem forall_isMet_iff :
    (∀ r ∈ all, r.IsMet g) ↔
      version.IsMet g ∧ name.IsMet g ∧
      (∀ k ∈ NamedKind.all,
        (kind ⟨k.name, true⟩).IsMet g) ∧
      (∀ k ∈ anonymousKinds, (kind ⟨k, false⟩).IsMet g) ∧
      ∀ f ∈ FieldName.all, (field f.label).IsMet g := by
  simp only [all, List.forall_mem_cons,
    List.forall_mem_append, List.forall_mem_map, and_assoc]

/-
  In tables that are not too long, only what is in them
  counts: not where it stands, and not how often.
-/
theorem isMet_congr
    (hVersion : g'.version = g.version)
    (hName : g'.name = g.name)
    (hKinds : ∀ entry, entry ∈ g'.kinds ↔ entry ∈ g.kinds)
    (hFields : ∀ f, f ∈ g'.fields ↔ f ∈ g.fields)
    (hShort : g.kinds.length ≤ 65536)
    (hShort' : g'.kinds.length ≤ 65536)
    (hFew : g.fields.length ≤ 65535)
    (hFew' : g'.fields.length ≤ 65535)
    (r : Requirement) :
    r.IsMet g' ↔ r.IsMet g := by
  cases r with
  | version => rw [IsMet, IsMet, hVersion]
  | name => rw [IsMet, IsMet, hName]
  | kind entry =>
      rw [IsMet, IsMet, exists_place_iff_mem hShort',
        exists_place_iff_mem hShort]
      exact hKinds entry
  | field label =>
      rw [IsMet, IsMet, exists_place_iff_mem hFew',
        exists_place_iff_mem hFew]
      exact hFields label

end Requirement

------------------------------------------------------------
-- Verdicts
------------------------------------------------------------

namespace Grammar

variable {g g' : Grammar}

/- A kind has no number where none of its places counts. -/
theorem isNone_kindId?
    (g : Grammar)
    (entry : KindEntry) :
    (g.kindId? entry).isNone =
      !decide ((Requirement.kind entry).IsMet g) := by
  have hNumber :
      g.NumbersKind entry ↔
        (g.kindId? entry).isSome = true := by
    rw [Option.isSome_iff_exists]
    constructor
    · rintro ⟨id, _, hId, _⟩
      exact ⟨id, hId⟩
    · rintro ⟨id, hId⟩
      exact numbersKind_of_kindId? hId
  simp only [Requirement.isMet_kind_iff, hNumber,
    Bool.decide_eq_true, Option.not_isSome]

theorem isNone_fieldId?
    (g : Grammar)
    (label : String) :
    (g.fieldId? label).isNone =
      !decide ((Requirement.field label).IsMet g) := by
  have hNumber :
      g.NumbersField label ↔
        (g.fieldId? label).isSome = true := by
    rw [Option.isSome_iff_exists]
    constructor
    · rintro ⟨id, _, hId, _⟩
      exact ⟨id, hId⟩
    · rintro ⟨id, hId⟩
      exact numbersField_of_fieldId? hId
  simp only [Requirement.isMet_field_iff, hNumber,
    Bool.decide_eq_true, Option.not_isSome]

/- Of the tables, the kinds are looked at first. -/
theorem find?_tables
    (g : Grammar) :
    (requiredKinds.map Requirement.kind ++
        requiredFields.map Requirement.field).find?
          (fun r => !decide (r.IsMet g)) =
      (g.missingKind?.map Requirement.kind).or
        (g.missingField?.map Requirement.field) := by
  have hKinds :
      (fun r : Requirement => !decide (r.IsMet g)) ∘
          Requirement.kind =
        fun entry => (g.kindId? entry).isNone :=
    funext fun entry => (isNone_kindId? g entry).symm
  have hFields :
      (fun r : Requirement => !decide (r.IsMet g)) ∘
          Requirement.field =
        fun label => (g.fieldId? label).isNone :=
    funext fun label => (isNone_fieldId? g label).symm
  rw [List.find?_append, List.find?_map, List.find?_map,
    hKinds, hFields]
  rfl

/- The problem is the first requirement that is not met. -/
theorem problem?_eq_find?
    (g : Grammar) :
    g.problem? =
      (Requirement.all.find?
        (fun r => !decide (r.IsMet g))).map
          (Requirement.error g) := by
  rw [Requirement.all_eq]
  by_cases hVersion : IsSupported g.version
  · have hMet := Requirement.isMet_version_iff.mpr hVersion
    rw [List.find?_cons_of_neg (by simpa using hMet)]
    by_cases hName : g.name = requiredName
    · have hMet := Requirement.isMet_name_iff.mpr hName
      rw [List.find?_cons_of_neg (by simpa using hMet),
        find?_tables]
      cases hKind : g.missingKind? with
      | some entry =>
          simp [problem?, hVersion, hName, hKind,
            Requirement.error]
      | none =>
          cases hField : g.missingField? <;>
            simp [problem?, hVersion, hName, hKind, hField,
              Requirement.error]
    · have hMet := mt Requirement.isMet_name_iff.mp hName
      rw [List.find?_cons_of_pos (by simpa using hMet)]
      simp [problem?, hVersion, hName, Requirement.error]
  · have hMet :=
      mt Requirement.isMet_version_iff.mp hVersion
    rw [List.find?_cons_of_pos (by simpa using hMet)]
    simp [problem?, hVersion, Requirement.error]

/- A grammar is valid if it has all that is required. -/
theorem validate_eq_ok_iff_forall_isMet :
    g.validate = .ok () ↔
      ∀ r ∈ Requirement.all, r.IsMet g := by
  have hNone :
      g.problem? = none ↔
        ∀ r ∈ Requirement.all, r.IsMet g := by
    rw [problem?_eq_find?, Option.map_eq_none_iff,
      List.find?_eq_none]
    simp
  rw [← hNone, validate]
  cases g.problem? <;> simp

/- The error is about the first requirement not met. -/
theorem validate_eq_error_iff
    {e : GrammarError} :
    g.validate = .error e ↔
      ∃ before r behind,
        Requirement.all = before ++ r :: behind ∧
        (∀ earlier ∈ before, earlier.IsMet g) ∧
        ¬ r.IsMet g ∧
        e = r.error g := by
  have hProblem :
      g.validate = .error e ↔ g.problem? = some e := by
    rw [validate]
    cases g.problem? <;> simp
  rw [hProblem, problem?_eq_find?, Option.map_eq_some_iff]
  simp only [List.find?_eq_some_iff_append, Bool.not_not,
    Bool.not_eq_true', decide_eq_true_eq,
    decide_eq_false_iff_not]
  constructor
  · rintro ⟨r, ⟨hNot, before, behind, hAll, hMet⟩, rfl⟩
    exact ⟨before, r, behind, hAll, hMet, hNot, rfl⟩
  · rintro ⟨before, r, behind, hAll, hMet, hNot, rfl⟩
    exact ⟨r, ⟨hNot, before, behind, hAll, hMet⟩, rfl⟩

/-
  Grammars that meet the same requirements have the same
  verdict, if what is said of them does not differ.
-/
theorem validate_congr
    (hMet : ∀ r : Requirement, r.IsMet g' ↔ r.IsMet g)
    (hError : Requirement.error g' = Requirement.error g) :
    g'.validate = g.validate := by
  rw [validate, validate, problem?_eq_find?,
    problem?_eq_find?, hError]
  simp only [hMet]

------------------------------------------------------------
-- Entries In Front
------------------------------------------------------------

/- The grammar with other entries in front of its own. -/
def behindEntries
    (g : Grammar)
    (kinds : List KindEntry)
    (fields : List String) : Grammar :=
  { g with
    kinds := kinds ++ g.kinds
    fields := fields ++ g.fields }

/-
  Behind entries that nothing requires, a valid grammar
  stays valid as long as all first places still count.
-/
theorem validate_behindEntries_iff
    {kinds : List KindEntry}
    {fields : List String}
    (hValid : g.validate = .ok ())
    (hKinds : ∀ entry ∈ kinds, entry ∉ requiredKinds)
    (hFields : ∀ f ∈ fields, f ∉ requiredFields) :
    (g.behindEntries kinds fields).validate = .ok () ↔
      (∀ entry ∈ requiredKinds,
        kinds.length + g.kinds.idxOf entry ≤ 65535) ∧
      ∀ f ∈ requiredFields,
        fields.length + g.fields.idxOf f ≤ 65534 := by
  rw [validate_eq_ok_iff_forall_isMet,
    Requirement.all_eq] at hValid ⊢
  simp only [List.forall_mem_cons, List.forall_mem_append,
    List.forall_mem_map] at hValid ⊢
  rcases hValid with ⟨hVersion, hName, hOldKinds, hOldFields⟩
  have hKind :
      ∀ entry ∈ requiredKinds,
        ((Requirement.kind entry).IsMet
            (g.behindEntries kinds fields) ↔
          kinds.length + g.kinds.idxOf entry ≤ 65535) := by
    intro entry hRequired
    rcases hOldKinds entry hRequired with ⟨i, _, hPlace⟩
    have hMem := List.mem_of_getElem? hPlace
    have hOther : entry ∉ kinds :=
      fun hFront => hKinds entry hFront hRequired
    rw [← List.idxOf_append_of_notMem hOther]
    exact Requirement.exists_place_iff_idxOf
      (List.mem_append_right kinds hMem)
  have hField :
      ∀ f ∈ requiredFields,
        ((Requirement.field f).IsMet
            (g.behindEntries kinds fields) ↔
          fields.length + g.fields.idxOf f ≤ 65534) := by
    intro f hRequired
    rcases hOldFields f hRequired with ⟨i, _, hPlace⟩
    have hMem := List.mem_of_getElem? hPlace
    have hOther : f ∉ fields :=
      fun hFront => hFields f hFront hRequired
    rw [← List.idxOf_append_of_notMem hOther]
    exact Requirement.exists_place_iff_idxOf
      (List.mem_append_right fields hMem)
  constructor
  · rintro ⟨-, -, hNewKinds, hNewFields⟩
    exact
      ⟨fun entry hMem =>
          (hKind entry hMem).mp (hNewKinds entry hMem),
        fun f hMem => (hField f hMem).mp (hNewFields f hMem)⟩
  · rintro ⟨hNewKinds, hNewFields⟩
    exact
      ⟨hVersion, hName,
        fun entry hMem =>
          (hKind entry hMem).mpr (hNewKinds entry hMem),
        fun f hMem =>
          (hField f hMem).mpr (hNewFields f hMem)⟩

------------------------------------------------------------
-- Main Result
------------------------------------------------------------

/-
  A grammar is accepted if its version is 13 or 14, its name
  is `fe`, every named kind and every anonymous kind is at
  one of the places 0 to 65535, and every field at one of
  the places 0 to 65534.  Of any other grammar the first of
  these is told that it does not have.  So in tables where
  all places count, neither the order of the entries nor
  their number matters, and other entries may be put in
  front of those of a valid grammar as long as the first
  place of everything that is required still counts.
-/
theorem validate_finds_first_failure
    (g : Grammar) :
    (g.validate = .ok () ↔
      (g.version = 13 ∨ g.version = 14) ∧
      g.name = "fe" ∧
      (∀ k ∈ NamedKind.all,
        ∃ i ≤ 65535, g.kinds[i]? = some ⟨k.name, true⟩) ∧
      (∀ k ∈ anonymousKinds,
        ∃ i ≤ 65535, g.kinds[i]? = some ⟨k, false⟩) ∧
      ∀ f ∈ FieldName.all,
        ∃ i ≤ 65534, g.fields[i]? = some f.label) ∧
    (∀ e, g.validate = .error e ↔
      ∃ before r behind,
        Requirement.all = before ++ r :: behind ∧
        (∀ earlier ∈ before, earlier.IsMet g) ∧
        ¬ r.IsMet g ∧
        e = r.error g) ∧
    (∀ g' : Grammar,
      g'.version = g.version →
      g'.name = g.name →
      (∀ entry, entry ∈ g'.kinds ↔ entry ∈ g.kinds) →
      (∀ f, f ∈ g'.fields ↔ f ∈ g.fields) →
      g.kinds.length ≤ 65536 →
      g'.kinds.length ≤ 65536 →
      g.fields.length ≤ 65535 →
      g'.fields.length ≤ 65535 →
      g'.validate = g.validate) ∧
    ∀ kinds fields,
      g.validate = .ok () →
      (∀ entry ∈ kinds, entry ∉ requiredKinds) →
      (∀ f ∈ fields, f ∉ requiredFields) →
      ((g.behindEntries kinds fields).validate = .ok () ↔
        (∀ entry ∈ requiredKinds,
          kinds.length + g.kinds.idxOf entry ≤ 65535) ∧
        ∀ f ∈ requiredFields,
          fields.length + g.fields.idxOf f ≤ 65534) := by
  refine ⟨?_, fun e => validate_eq_error_iff, ?_, ?_⟩
  · rw [validate_eq_ok_iff_forall_isMet]
    exact Requirement.forall_isMet_iff
  · intro g' hVersion hName hKinds hFields hShort hShort'
      hFew hFew'
    apply validate_congr
    · exact Requirement.isMet_congr hVersion hName hKinds
        hFields hShort hShort' hFew hFew'
    · funext r
      cases r with
      | version =>
          exact congrArg GrammarError.unsupportedVersion
            hVersion
      | name => exact congrArg GrammarError.wrongName hName
      | kind entry => rfl
      | field label => rfl
  · intro kinds fields hValid hKinds hFields
    exact validate_behindEntries_iff hValid hKinds hFields

/- An entry that is not required. -/
def otherEntry : KindEntry :=
  ⟨"", true⟩

/-
  There is room for 65472 entries in front of the built-in
  grammar, and its entries can be in any order and twice.
-/
theorem validate_finds_first_failure_builtin :
    let shuffled : Grammar :=
      { builtin with
        kinds := builtin.kinds.reverse ++ builtin.kinds
        fields := builtin.fields.reverse }
    shuffled.validate = builtin.validate ∧
    (builtin.behindEntries
      (List.replicate 65472 otherEntry) []).validate =
        .ok () ∧
    (builtin.behindEntries
      (List.replicate 65473 otherEntry) []).validate ≠
        .ok () := by
  intro shuffled
  rcases validate_finds_first_failure builtin with
    ⟨_, _, hOrder, hFront⟩
  have hValid : builtin.validate = .ok () := by decide
  have hOther : otherEntry ∉ requiredKinds := by decide
  have hNone :
      ∀ n, ∀ entry ∈ List.replicate n otherEntry,
        entry ∉ requiredKinds := by
    intro n entry hMem
    rw [List.eq_of_mem_replicate hMem]
    exact hOther
  refine ⟨?_, ?_, ?_⟩
  · exact hOrder shuffled rfl rfl (by simp [shuffled])
      (by simp [shuffled]) (by decide) (by decide)
      (by decide) (by decide)
  · refine (hFront _ [] hValid (hNone _) nofun).mpr ?_
    rw [List.length_replicate]
    decide
  · rw [ne_eq, hFront _ [] hValid (hNone _) nofun,
      List.length_replicate]
    decide

end Grammar

end FeSyntax
