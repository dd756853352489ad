import FeSyntax.Proofs.Syntax.Fits

/-
  This file defines the definitions and the files that fit
  into a number of nested levels, with one lemma for each
  form that says which parts have to fit.

  Key definitions include:
    * `Field.Fits`
    * `Function.Fits`
    * `Function.FitsAsMember`
    * `Definition.Fits`
    * `SourceFile.Fits`
-/

namespace FeSyntax

------------------------------------------------------------
-- Functions
------------------------------------------------------------

/- The type of a field fits into a number of levels. -/
def Field.Fits
    (n : Nat)
    (f : Field) : Prop :=
  f.KeywordWins ∧ f.ty.height ≤ n

/-
  Without `pub`, the name of a field may not be that word.
-/
theorem Field.fits_iff
    {n : Nat}
    {f : Field} :
    f.Fits n ↔
      (f.isPub = false →
        f.name.name ≠ Keyword.pubKw.spelling) ∧
      f.ty.Fits n := by
  constructor
  · intro hFits
    rcases hFits with ⟨hKeyword, hHeight⟩
    exact ⟨hKeyword.not_pub, hKeyword.ty, hHeight⟩
  · intro hFits
    rcases hFits with ⟨hPub, hTy, hHeight⟩
    exact ⟨⟨hPub, hTy⟩, hHeight⟩

namespace Function

/- The parts of a function fit into a number of levels. -/
def Fits
    (n : Nat)
    (f : Function) : Prop :=
  f.KeywordWins ∧ f.height ≤ n

/- A function of a trait or an impl fits with its level. -/
def FitsAsMember
    (n : Nat)
    (f : Function) : Prop :=
  f.KeywordWins ∧ f.memberHeight ≤ n

/- A function fits if its types and its block do. -/
theorem fits_iff
    {n : Nat}
    {f : Function} :
    f.Fits n ↔
      (∀ p ∈ f.params, p.ty.Fits n) ∧
      (∀ t ∈ f.returnType, t.Fits n) ∧
      f.body.Fits n := by
  have hHeight :
      f.height ≤ n ↔
        (∀ p ∈ f.params, p.ty.height ≤ n) ∧
        (∀ t ∈ f.returnType, t.height ≤ n) ∧
        f.body.height ≤ n := by
    simp only [height, Nat.max_le, highest_map_le_iff,
      highest_option_le_iff]
  constructor
  · intro hFits
    rcases hFits with ⟨hKeyword, hLevels⟩
    rcases hHeight.mp hLevels with ⟨hParams, hReturn, hBody⟩
    refine ⟨?_, ?_, hKeyword.body, hBody⟩
    · exact fun p hMem =>
        ⟨hKeyword.params p hMem, hParams p hMem⟩
    · exact fun t hMem =>
        ⟨hKeyword.returnType t hMem, hReturn t hMem⟩
  · intro hFits
    rcases hFits with ⟨hParams, hReturn, hBody, hBodyHeight⟩
    refine
      ⟨⟨?_, ?_, hBody⟩, hHeight.mpr ⟨?_, ?_, hBodyHeight⟩⟩
    · exact fun p hMem => (hParams p hMem).1
    · exact fun t hMem => (hReturn t hMem).1
    · exact fun p hMem => (hParams p hMem).2
    · exact fun t hMem => (hReturn t hMem).2

/- A member function takes a level. -/
theorem not_fitsAsMember_zero
    (f : Function) :
    ¬ f.FitsAsMember 0 := by
  intro hFits
  rcases hFits with ⟨-, hHeight⟩
  simp [memberHeight] at hHeight

/- It leaves the others to the parts of the function. -/
theorem fitsAsMember_succ
    {n : Nat}
    {f : Function} :
    f.FitsAsMember (n + 1) ↔ f.Fits n := by
  simp only [FitsAsMember, memberHeight, Fits,
    Nat.add_le_add_iff_right]

end Function

------------------------------------------------------------
-- Structs, Constants, Traits And Impls
------------------------------------------------------------

/- The fields of a struct fit into a number of levels. -/
def Struct.Fits
    (n : Nat)
    (s : Struct) : Prop :=
  s.KeywordWins ∧ s.height ≤ n

/- A struct fits if all its fields do. -/
theorem Struct.fits_iff
    {n : Nat}
    {s : Struct} :
    s.Fits n ↔
      ∀ fields ∈ s.fields, ∀ f ∈ fields, f.Fits n := by
  have hHeight :
      s.height ≤ n ↔
        ∀ fields ∈ s.fields, ∀ f ∈ fields,
          f.ty.height ≤ n := by
    rw [height, highest_map_le_iff]
    cases s.fields with
    | none => simp
    | some fields => simp
  constructor
  · intro hFits fields hFields f hMem
    rcases hFits with ⟨hKeyword, hLevels⟩
    exact
      ⟨hKeyword fields hFields f hMem,
        hHeight.mp hLevels fields hFields f hMem⟩
  · intro hFits
    refine ⟨?_, hHeight.mpr ?_⟩
    · exact fun fields hFields f hMem =>
        (hFits fields hFields f hMem).1
    · exact fun fields hFields f hMem =>
        (hFits fields hFields f hMem).2

/- The parts of a constant fit into a number of levels. -/
def Constant.Fits
    (n : Nat)
    (c : Constant) : Prop :=
  c.KeywordWins ∧ c.height ≤ n

/- A constant fits if its type and its value do. -/
theorem Constant.fits_iff
    {n : Nat}
    {c : Constant} :
    c.Fits n ↔ c.ty.Fits n ∧ c.value.Fits n := by
  constructor
  · intro hFits
    rcases hFits with ⟨hKeyword, hHeight⟩
    rcases Nat.max_le.mp hHeight with ⟨hTy, hValue⟩
    exact ⟨⟨hKeyword.ty, hTy⟩, ⟨hKeyword.value, hValue⟩⟩
  · intro hFits
    rcases hFits with
      ⟨⟨hTy, hTyHeight⟩, ⟨hValue, hValueHeight⟩⟩
    exact
      ⟨⟨hTy, hValue⟩,
        Nat.max_le.mpr ⟨hTyHeight, hValueHeight⟩⟩

/- The functions of a trait fit into a number of levels. -/
def Trait.Fits
    (n : Nat)
    (t : Trait) : Prop :=
  (∀ f ∈ t.functions, f.KeywordWins) ∧ t.height ≤ n

/-
  A trait fits if its functions do, which take a level each.
-/
theorem Trait.fits_iff
    {n : Nat}
    {t : Trait} :
    t.Fits n ↔ ∀ f ∈ t.functions, f.FitsAsMember n := by
  constructor
  · intro hFits f hMem
    rcases hFits with ⟨hKeyword, hHeight⟩
    exact
      ⟨hKeyword f hMem,
        highest_map_le_iff.mp hHeight f hMem⟩
  · intro hFits
    refine ⟨?_, highest_map_le_iff.mpr ?_⟩
    · exact fun f hMem => (hFits f hMem).1
    · exact fun f hMem => (hFits f hMem).2

/- The parts of an impl fit into a number of levels. -/
def Impl.Fits
    (n : Nat)
    (i : Impl) : Prop :=
  i.KeywordWins ∧ i.height ≤ n

/-
  An implementation fits if its types do, and its functions
  as members.
-/
theorem Impl.fits_iff
    {n : Nat}
    {i : Impl} :
    i.Fits n ↔
      i.ty.Fits n ∧
      (∀ t ∈ i.traitTy, t.Fits n) ∧
      ∀ f ∈ i.functions, f.FitsAsMember n := by
  have hHeight :
      i.height ≤ n ↔
        i.ty.height ≤ n ∧
        (∀ t ∈ i.traitTy, t.height ≤ n) ∧
        ∀ f ∈ i.functions, f.memberHeight ≤ n := by
    simp only [height, Nat.max_le, highest_map_le_iff,
      highest_option_le_iff]
  constructor
  · intro hFits
    rcases hFits with ⟨hKeyword, hLevels⟩
    rcases hHeight.mp hLevels with ⟨hTy, hTrait, hFunctions⟩
    refine ⟨⟨hKeyword.ty, hTy⟩, ?_, ?_⟩
    · exact fun t hMem =>
        ⟨hKeyword.traitTy t hMem, hTrait t hMem⟩
    · exact fun f hMem =>
        ⟨hKeyword.functions f hMem, hFunctions f hMem⟩
  · intro hFits
    rcases hFits with ⟨⟨hTy, hTyHeight⟩, hTrait, hFunctions⟩
    refine
      ⟨⟨hTy, ?_, ?_⟩, hHeight.mpr ⟨hTyHeight, ?_, ?_⟩⟩
    · exact fun t hMem => (hTrait t hMem).1
    · exact fun f hMem => (hFunctions f hMem).1
    · exact fun t hMem => (hTrait t hMem).2
    · exact fun f hMem => (hFunctions f hMem).2

------------------------------------------------------------
-- Modules And Definitions
------------------------------------------------------------

/- A definition fits into a number of levels. -/
def Definition.Fits
    (n : Nat)
    (d : Definition) : Prop :=
  d.KeywordWins ∧ d.height ≤ n

/- The parts of a module fit into a number of levels. -/
def Module.Fits
    (n : Nat)
    (m : Module) : Prop :=
  m.KeywordWins ∧ m.height ≤ n

/- A module fits if its definitions do. -/
theorem Module.fits_mk
    {n : Nat}
    {name : Identifier}
    {definitions : List Definition}
    {span : Span} :
    Module.Fits n ⟨name, definitions, span⟩ ↔
      ∀ d ∈ definitions, d.Fits n := by
  have hHeight :
      Module.height ⟨name, definitions, span⟩ ≤ n ↔
        ∀ d ∈ definitions, d.height ≤ n := by
    simp only [height, definitionHeights_eq,
      highest_map_le_iff]
  constructor
  · intro hFits d hMem
    rcases hFits with ⟨hKeyword, hLevels⟩
    cases hKeyword with
    | mk hDefinitions =>
        exact
          ⟨hDefinitions d hMem, hHeight.mp hLevels d hMem⟩
  · intro hFits
    refine ⟨.mk ?_, hHeight.mpr ?_⟩
    · exact fun d hMem => (hFits d hMem).1
    · exact fun d hMem => (hFits d hMem).2

namespace Definition

theorem not_fits_zero
    (d : Definition) :
    ¬ d.Fits 0 := by
  intro hFits
  have hHeight := hFits.2
  cases d with
  | module m => simp [height] at hHeight
  | function f => simp [height] at hHeight
  | struct s => simp [height] at hHeight
  | constant c => simp [height] at hHeight
  | typeAlias a => simp [height] at hHeight
  | trait t => simp [height] at hHeight
  | impl i => simp [height] at hHeight

/-
  The definition itself takes one level, and its parts have
  to fit into the others.
-/
theorem fits_succ
    {n : Nat}
    {d : Definition} :
    d.Fits (n + 1) ↔
      match d with
      | .module m => m.Fits n
      | .function f => f.Fits n
      | .struct s => s.Fits n
      | .constant c => c.Fits n
      | .typeAlias a => a.ty.Fits n
      | .trait t => t.Fits n
      | .impl i => i.Fits n := by
  constructor
  · intro hFits
    rcases hFits with ⟨hKeyword, hHeight⟩
    cases hKeyword with
    | module hModule =>
        exact ⟨hModule, Nat.le_of_succ_le_succ hHeight⟩
    | function hFunction =>
        exact ⟨hFunction, Nat.le_of_succ_le_succ hHeight⟩
    | struct hStruct =>
        exact ⟨hStruct, Nat.le_of_succ_le_succ hHeight⟩
    | constant hConstant =>
        exact ⟨hConstant, Nat.le_of_succ_le_succ hHeight⟩
    | typeAlias hTy =>
        exact ⟨hTy, Nat.le_of_succ_le_succ hHeight⟩
    | trait hFunctions =>
        exact ⟨hFunctions, Nat.le_of_succ_le_succ hHeight⟩
    | impl hImpl =>
        exact ⟨hImpl, Nat.le_of_succ_le_succ hHeight⟩
  · intro hFits
    cases d with
    | module m =>
        exact ⟨.module hFits.1, Nat.succ_le_succ hFits.2⟩
    | function f =>
        exact ⟨.function hFits.1, Nat.succ_le_succ hFits.2⟩
    | struct s =>
        exact ⟨.struct hFits.1, Nat.succ_le_succ hFits.2⟩
    | constant c =>
        exact ⟨.constant hFits.1, Nat.succ_le_succ hFits.2⟩
    | typeAlias a =>
        exact ⟨.typeAlias hFits.1, Nat.succ_le_succ hFits.2⟩
    | trait t =>
        exact ⟨.trait hFits.1, Nat.succ_le_succ hFits.2⟩
    | impl i =>
        exact ⟨.impl hFits.1, Nat.succ_le_succ hFits.2⟩

end Definition

------------------------------------------------------------
-- Source Files
------------------------------------------------------------

/- A file fits into a number of levels. -/
def SourceFile.Fits
    (n : Nat)
    (f : SourceFile) : Prop :=
  f.KeywordWins ∧ f.height ≤ n

theorem SourceFile.fits_iff
    {n : Nat}
    {f : SourceFile} :
    f.Fits n ↔ ∀ d ∈ f.definitions, d.Fits n := by
  constructor
  · intro hFits d hMem
    rcases hFits with ⟨hKeyword, hHeight⟩
    exact
      ⟨hKeyword d hMem,
        highest_map_le_iff.mp hHeight d hMem⟩
  · intro hFits
    refine ⟨?_, highest_map_le_iff.mpr ?_⟩
    · exact fun d hMem => (hFits d hMem).1
    · exact fun d hMem => (hFits d hMem).2

end FeSyntax
