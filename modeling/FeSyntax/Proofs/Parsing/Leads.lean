import FeSyntax.Proofs.Parsing.Realize
import FeSyntax.Proofs.Parsing.Sentence

/-
  This file defines what it means for tokens to be the start
  of a word of a language that can be written to its end.
  Such a start leads on to everything that the language
  leads on to, as long as that can be written as well.

  Key definitions include:
    * `Fillable`
    * `Leads`

  Key theorems include:
    * `Fillable.leads`
    * `Leads.mul`
    * `Reads.leads_mul`
    * `Leads.headed`
-/

namespace FeSyntax

open scoped Computability

open Spelling

------------------------------------------------------------
-- Kinds That Can Be Written
------------------------------------------------------------

namespace TokenKind

/- A punctuation mark can be written by its spelling. -/
theorem isWritable_punct
    (p : Punct) :
    IsWritable (.punct p) :=
  ⟨nofun, _, .punct p⟩

/- So can a keyword, which reads as no other word. -/
theorem isWritable_keyword
    (k : Keyword) :
    IsWritable (.keyword k) := by
  have hText :
      Lexeme.TokenText k.spelling.toList
        (ofWord (String.ofList k.spelling.toList)) := by
    cases k <;>
      exact .word (by decide)
        (List.all_iff_forall_prop.mp (by decide))
  rw [String.ofList_toList, ofWord_keyword] at hText
  exact ⟨nofun, _, hText⟩

end TokenKind

/- A name that is no reserved word. -/
abbrev TokenKind.plainName : TokenKind :=
  .identifier "x"

theorem TokenKind.isWritable_plainName :
    plainName.IsWritable :=
  ⟨nofun, ['x'], .word (by decide) nofun⟩

------------------------------------------------------------
-- Words That Can Be Written
------------------------------------------------------------

/- Some word of the language can be written. -/
class Fillable
    (l : Language TokenKind) : Prop where
  exists_mem : ∃ w ∈ l, ∀ kind ∈ w, kind.IsWritable

namespace Fillable

variable {l m : Language TokenKind}

/- A language with more words can be filled as well. -/
theorem of_le
    [Fillable l]
    (hLess : l ≤ m) :
    Fillable m := by
  rcases exists_mem (l := l) with ⟨w, hMem, hKinds⟩
  exact ⟨w, hLess hMem, hKinds⟩

/- One token that can be written is enough. -/
theorem of_kind
    {kind : TokenKind}
    (hMem : [kind] ∈ l)
    (hKind : kind.IsWritable) :
    Fillable l := by
  refine ⟨[kind], hMem, fun k hElem => ?_⟩
  rw [List.mem_singleton.mp hElem]
  exact hKind

instance : Fillable 1 :=
  ⟨[], (Language.mem_one _).mpr rfl, nofun⟩

instance
    [Fillable l]
    [Fillable m] :
    Fillable (l * m) := by
  rcases exists_mem (l := l) with ⟨w, hMem, hKinds⟩
  rcases exists_mem (l := m) with ⟨v, hMem', hKinds'⟩
  refine
    ⟨w ++ v, Language.mem_mul.mpr ⟨w, hMem, v, hMem', rfl⟩,
      ?_⟩
  exact List.forall_mem_append.mpr ⟨hKinds, hKinds'⟩

instance
    [Fillable l] :
    Fillable (l + m) :=
  of_le le_self_add

instance : Fillable l∗ :=
  of_le (l := 1) one_le_kstar

instance
    (p : Punct) :
    Fillable p.written :=
  of_kind rfl (TokenKind.isWritable_punct p)

instance
    (k : Keyword) :
    Fillable k.written :=
  of_kind rfl (TokenKind.isWritable_keyword k)

/- A plain name can be written. -/
theorem of_plainName
    (hMem : [.plainName] ∈ l) :
    Fillable l :=
  of_kind hMem TokenKind.isWritable_plainName

end Fillable

------------------------------------------------------------
-- Names And Literals
------------------------------------------------------------

/- A plain name can stand where its kind may come first. -/
theorem plainName_mem_inf
    {l : Language TokenKind}
    {first : TokenKind → Prop}
    (hMem : [.plainName] ∈ l)
    (hFirst : first .plainName) :
    [.plainName] ∈ l ⊓ headed first := by
  refine ⟨hMem, fun kind hHead => ?_⟩
  cases hHead
  exact hFirst

theorem Identifier.plainName_mem :
    [.plainName] ∈ Identifier.sentences :=
  mem_sentences_iff.mpr ⟨⟨"x", .nowhere⟩, trivial, rfl⟩

theorem Path.plainName_mem :
    [.plainName] ∈ Path.sentences := by
  have hName : Identifier.sentences ≤ Path.sentences :=
    (le_mul_of_one_le_right' one_le_kstar).trans some_le
  exact hName Identifier.plainName_mem

instance : Fillable Identifier.sentences :=
  .of_plainName Identifier.plainName_mem

instance : Fillable Literal.sentences :=
  .of_kind
    (mem_sentences_iff.mpr
      ⟨⟨.bool true, .nowhere⟩, trivial, rfl⟩)
    ⟨nofun, "true".toList,
      .word (by decide)
        (List.all_iff_forall_prop.mp (by decide))⟩

instance
    {mark : Punct}
    {l : Language TokenKind}
    [Fillable l] :
    Fillable (someOf mark l) :=
  inferInstanceAs (Fillable (l * (mark.written * l)∗))

instance
    {close : Punct}
    {l : Language TokenKind} :
    Fillable (anyOf close l) :=
  inferInstanceAs (Fillable (close.written + _))

------------------------------------------------------------
-- Starts Of Words
------------------------------------------------------------

/-
  The tokens in front of `rest` have kinds that are the
  start of a word of the language, and the kinds that are
  left of that word can be written.
-/
def Leads
    (ts : List Token)
    (l : Language TokenKind)
    (rest : List Token) : Prop :=
  ∃ used more, ts = used ++ rest ∧
    used.map Token.kind ++ more ∈ l ∧
    ∀ kind ∈ more, kind.IsWritable

section Leads

variable {l m : Language TokenKind}
variable {ts mid rest : List Token}

/- Nothing is the start of every word. -/
theorem Fillable.leads
    [Fillable l]
    (ts : List Token) :
    Leads ts l ts := by
  rcases Fillable.exists_mem (l := l) with ⟨w, hMem, hKinds⟩
  exact ⟨[], w, rfl, hMem, hKinds⟩

/-
  A start of a word is one in every language with more
  words.
-/
theorem Leads.mono
    (hLeads : Leads ts l rest)
    (hLess : l ≤ m) :
    Leads ts m rest := by
  rcases hLeads with ⟨used, more, hTokens, hMem, hKinds⟩
  exact ⟨used, more, hTokens, hLess hMem, hKinds⟩

theorem Reads.mono
    (hReads : Reads ts l rest)
    (hLess : l ≤ m) :
    Reads ts m rest := by
  rcases hReads with ⟨used, hTokens, hMem⟩
  exact ⟨used, hTokens, hLess hMem⟩

/- A start that can be ended is one of a longer word. -/
theorem Leads.mul
    [Fillable m]
    (hLeads : Leads ts l rest) :
    Leads ts (l * m) rest := by
  rcases hLeads with ⟨used, more, hTokens, hMem, hKinds⟩
  rcases Fillable.exists_mem (l := m) with
    ⟨w, hMem', hKinds'⟩
  refine ⟨used, more ++ w, hTokens, ?_, ?_⟩
  · rw [← List.append_assoc]
    exact Language.mem_mul.mpr ⟨_, hMem, w, hMem', rfl⟩
  · exact List.forall_mem_append.mpr ⟨hKinds, hKinds'⟩

/- A word with the start of another behind it. -/
theorem Reads.leads_mul
    (hReads : Reads ts l mid)
    (hLeads : Leads mid m rest) :
    Leads ts (l * m) rest := by
  rcases hReads with ⟨before, rfl, hBefore⟩
  rcases hLeads with ⟨used, more, rfl, hMem, hKinds⟩
  refine ⟨before ++ used, more, ?_, ?_, hKinds⟩
  · rw [List.append_assoc]
  · rw [List.map_append, List.append_assoc]
    exact Language.mem_mul.mpr ⟨_, hBefore, _, hMem, rfl⟩

/- A word of two languages is a word of one of them. -/
theorem Leads.cases
    (hLeads : Leads ts (l + m) rest) :
    Leads ts l rest ∨ Leads ts m rest := by
  rcases hLeads with ⟨used, more, hTokens, hMem, hKinds⟩
  rcases (Language.mem_add _ _ _).mp hMem with hMem | hMem
  · exact .inl ⟨used, more, hTokens, hMem, hKinds⟩
  · exact .inr ⟨used, more, hTokens, hMem, hKinds⟩

variable {first : TokenKind → Prop}

/- The first token of a word settles how it is headed. -/
theorem Reads.headed
    (hReads : Reads ts l rest)
    (hFirst : ∀ kind, nextKind ts = some kind → first kind) :
    Reads ts (l ⊓ headed first) rest := by
  rcases hReads with ⟨used, rfl, hMem⟩
  refine ⟨used, rfl, hMem, fun kind hHead => ?_⟩
  cases used with
  | nil => cases hHead
  | cons t used => exact hFirst kind hHead

/-
  A start of a word is headed by its first token, or else by
  a plain name.
-/
theorem Leads.headed
    (hLeads : Leads ts l rest)
    (hName : [.plainName] ∈ l ⊓ Spelling.headed first)
    (hFirst : ∀ kind, nextKind ts = some kind → first kind) :
    Leads ts (l ⊓ Spelling.headed first) rest := by
  rcases hLeads with ⟨used, more, rfl, hMem, hKinds⟩
  cases used with
  | nil =>
      have : Fillable (l ⊓ Spelling.headed first) :=
        .of_plainName hName
      exact Fillable.leads rest
  | cons t used =>
      refine
        ⟨t :: used, more, rfl, ⟨hMem, fun kind hHead => ?_⟩,
          hKinds⟩
      exact hFirst kind hHead

end Leads

end FeSyntax
