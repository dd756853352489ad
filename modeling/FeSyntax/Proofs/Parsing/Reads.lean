import FeSyntax.Proofs.Lexing.Word
import FeSyntax.Proofs.Parsing.Outcome
import FeSyntax.Proofs.Syntax.Spelling

/-
  This file defines what it means to read a spelling from
  the front of a list of tokens, and proves how the reading
  of a whole is put together from the readings of its parts.

  Key definitions include:
    * `Reads`
    * `Lexed`
    * `StartsWith`

  Key theorems include:
    * `reads_mul_iff`
    * `reads_written_iff`
    * `Reads.exists_nextKind`
-/

namespace FeSyntax

variable {ts mid rest : List Token}
variable {l m : Language TokenKind}

------------------------------------------------------------
-- Readings
------------------------------------------------------------

/-
  The tokens in front of `rest` have kinds that are a word
  of the language.
-/
def Reads
    (ts : List Token)
    (l : Language TokenKind)
    (rest : List Token) : Prop :=
  ∃ used, ts = used ++ rest ∧ used.map Token.kind ∈ l

/-
  To read tokens up to the end is to have a word of their
  kinds.
-/
theorem reads_nil_iff :
    Reads ts l [] ↔ ts.map Token.kind ∈ l := by
  simp [Reads]

@[simp] theorem reads_one_iff :
    Reads ts 1 rest ↔ ts = rest := by
  constructor
  · intro hReads
    rcases hReads with ⟨used, rfl, hUsed⟩
    rw [Language.mem_one, List.map_eq_nil_iff] at hUsed
    rw [hUsed, List.nil_append]
  · rintro rfl
    exact ⟨[], rfl, (Language.mem_one _).mpr rfl⟩

/- Two words in a row are read one behind the other. -/
theorem reads_mul_iff :
    Reads ts (l * m) rest ↔
      ∃ mid, Reads ts l mid ∧ Reads mid m rest := by
  constructor
  · intro hReads
    rcases hReads with ⟨used, rfl, hUsed⟩
    rcases Language.mem_mul.mp hUsed with
      ⟨first, hFirst, second, hSecond, hSplit⟩
    rcases List.map_eq_append_iff.mp hSplit.symm with
      ⟨before, behind, rfl, rfl, rfl⟩
    refine
      ⟨behind ++ rest, ⟨before, ?_, hFirst⟩,
        ⟨behind, rfl, hSecond⟩⟩
    rw [List.append_assoc]
  · intro hReads
    rcases hReads with
      ⟨mid, ⟨before, rfl, hFirst⟩, ⟨behind, rfl, hSecond⟩⟩
    refine ⟨before ++ behind, ?_, ?_⟩
    · rw [List.append_assoc]
    · rw [List.map_append]
      exact Language.mem_mul.mpr
        ⟨_, hFirst, _, hSecond, rfl⟩

/- A word of two languages is read as one of either. -/
theorem reads_add_iff :
    Reads ts (l + m) rest ↔
      Reads ts l rest ∨ Reads ts m rest := by
  constructor
  · intro hReads
    rcases hReads with ⟨used, rfl, hUsed⟩
    rcases (Language.mem_add _ _ _).mp hUsed with
      hLeft | hRight
    · exact .inl ⟨used, rfl, hLeft⟩
    · exact .inr ⟨used, rfl, hRight⟩
  · intro hReads
    rcases hReads with
      ⟨used, rfl, hLeft⟩ | ⟨used, rfl, hRight⟩
    · refine ⟨used, rfl, ?_⟩
      exact (Language.mem_add l m _).mpr (.inl hLeft)
    · refine ⟨used, rfl, ?_⟩
      exact (Language.mem_add l m _).mpr (.inr hRight)

theorem reads_written_iff
    {kind : TokenKind} :
    Reads ts kind.written rest ↔
      ∃ t, ts = t :: rest ∧ t.kind = kind := by
  constructor
  · intro hReads
    rcases hReads with ⟨used, rfl, hUsed⟩
    rcases List.map_eq_singleton_iff.mp hUsed with
      ⟨t, rfl, hKind⟩
    exact ⟨t, rfl, hKind⟩
  · intro hReads
    rcases hReads with ⟨t, rfl, rfl⟩
    exact ⟨[t], rfl, rfl⟩

namespace Reads

/- Nothing is read. -/
theorem refl
    (ts : List Token) :
    Reads ts 1 ts :=
  reads_one_iff.mpr rfl

/- Two readings in a row. -/
theorem mul
    (hFirst : Reads ts l mid)
    (hSecond : Reads mid m rest) :
    Reads ts (l * m) rest :=
  reads_mul_iff.mpr ⟨mid, hFirst, hSecond⟩

end Reads

/- Only the token of a literal reads as that literal. -/
theorem TokenKind.literal?_eq_some
    {kind : TokenKind}
    {value : LiteralValue} :
    kind.literal? = some value ↔ kind = value.kind := by
  constructor
  · intro hLiteral
    cases kind with
    | number n suffix => cases hLiteral; rfl
    | bool b => cases hLiteral; rfl
    | string s => cases hLiteral; rfl
    | _ => cases hLiteral
  · rintro rfl
    cases value with
    | number n suffix => rfl
    | bool b => rfl
    | string s => rfl

------------------------------------------------------------
-- Tokens Of A Text
------------------------------------------------------------

/-
  Tokens as they come from a text: an identifier is never a
  reserved word.
-/
def Lexed
    (ts : List Token) : Prop :=
  ∀ t ∈ ts, t.kind.IsProper

/-
  What is left behind a word is made of tokens of a scanner
  as well.
-/
theorem Reads.lexed
    (hReads : Reads ts l rest)
    (hLexed : Lexed ts) :
    Lexed rest := by
  rcases hReads with ⟨used, rfl, -⟩
  intro t hMem
  exact hLexed t (List.mem_append_right used hMem)

------------------------------------------------------------
-- First Tokens
------------------------------------------------------------

/-
  Every word of a language has a first kind, which has some
  property.
-/
def StartsWith
    (first : TokenKind → Prop)
    (l : Language TokenKind) : Prop :=
  ∀ w ∈ l, ∃ kind, w.head? = some kind ∧ first kind

namespace StartsWith

variable {first : TokenKind → Prop}

theorem written
    {kind : TokenKind}
    (hFirst : first kind) :
    StartsWith first kind.written := by
  intro w hWord
  have hSingle : w = [kind] := hWord
  exact ⟨kind, by rw [hSingle]; rfl, hFirst⟩

/- The one kind that it starts with is that kind. -/
theorem written_self
    (kind : TokenKind) :
    StartsWith (· = kind) kind.written :=
  written rfl

/-
  A word starts as its front does, if the front is never
  empty.
-/
theorem mul
    (hStart : StartsWith first l) :
    StartsWith first (l * m) := by
  intro w hWord
  rcases Language.mem_mul.mp hWord with
    ⟨before, hBefore, behind, -, rfl⟩
  rcases hStart before hBefore with ⟨kind, hHead, hFirst⟩
  refine ⟨kind, ?_, hFirst⟩
  rw [List.head?_append, hHead]
  rfl

/- An optional part in front is another way to start. -/
theorem present
    {isThere : Bool}
    (hPart : StartsWith first l)
    (hNext : StartsWith first m) :
    StartsWith first (Spelling.present isThere l * m) := by
  cases isThere with
  | true => exact hPart.mul
  | false =>
      have hOne : Spelling.present false l = 1 := rfl
      rw [hOne, one_mul]
      exact hNext

/- A property of the first kind can be weakened. -/
theorem mono
    {second : TokenKind → Prop}
    (hStart : StartsWith first l)
    (hImp : ∀ kind, first kind → second kind) :
    StartsWith second l := by
  intro w hWord
  rcases hStart w hWord with ⟨kind, hHead, hFirst⟩
  exact ⟨kind, hHead, hImp kind hFirst⟩

end StartsWith

namespace Reads

variable {first : TokenKind → Prop}

/-
  The first kind of a word comes next where the word is
  read.
-/
theorem exists_nextKind
    (hReads : Reads ts l rest)
    (hStart : StartsWith first l) :
    ∃ kind, nextKind ts = some kind ∧ first kind := by
  rcases hReads with ⟨used, rfl, hUsed⟩
  rcases hStart _ hUsed with ⟨kind, hHead, hFirst⟩
  refine ⟨kind, ?_, hFirst⟩
  rw [List.head?_map] at hHead
  rw [nextKind, List.head?_append]
  cases hToken : used.head? with
  | none => simp [hToken] at hHead
  | some t => simpa [hToken] using hHead

/- So does a token that the word starts with. -/
theorem nextKind_eq
    {kind : TokenKind}
    (hReads : Reads ts (kind.written * l) rest) :
    nextKind ts = some kind := by
  have hStart :=
    (StartsWith.written_self kind).mul (m := l)
  rcases hReads.exists_nextKind hStart with ⟨_, hNext, rfl⟩
  exact hNext

/- An optional part starts with its lead if it is there. -/
theorem nextKind_behind
    {lead : TokenKind}
    {part : Option (Language TokenKind)}
    (hReads : Reads ts (Spelling.behind lead part) rest) :
    nextKind ts = some lead ∨
      nextKind ts = nextKind rest := by
  cases part with
  | none =>
      have hEnd : ts = rest := reads_one_iff.mp hReads
      subst hEnd
      exact .inr rfl
  | some part => exact .inl hReads.nextKind_eq

/- A kind that starts no spelling does not come next. -/
theorem nextKind_ne
    {kind : TokenKind}
    (hReads : Reads ts l rest)
    (hStart : StartsWith first l)
    (hNot : ¬ first kind) :
    nextKind ts ≠ some kind := by
  rcases hReads.exists_nextKind hStart with
    ⟨kind', hNext, hFirst⟩
  intro hSame
  rw [hNext, Option.some.injEq] at hSame
  rw [hSame] at hFirst
  exact hNot hFirst

/-
  Where a word with a first kind is read, there are tokens.
-/
theorem ne_nil
    (hReads : Reads ts l rest)
    (hStart : StartsWith first l) :
    ts ≠ [] := by
  rcases hReads.exists_nextKind hStart with ⟨kind, hNext, -⟩
  rintro rfl
  cases hNext

theorem length_lt
    (hReads : Reads ts l rest)
    (hStart : StartsWith first l) :
    rest.length < ts.length := by
  rcases hReads with ⟨used, rfl, hUsed⟩
  rcases hStart _ hUsed with ⟨kind, hHead, -⟩
  cases used with
  | nil => simp at hHead
  | cons t used =>
      rw [List.length_append, List.length_cons]
      omega

end Reads

end FeSyntax
