import FeSyntax.Token.Kind

/-
  This file proves how words and token kinds determine each
  other: the kind of a word is written as that word, and
  each reserved word has its own kind.

  Key definitions include:
    * `TokenKind.IsProper`

  Key theorems include:
    * `TokenKind.word?_ofWord`
    * `TokenKind.ofWord_keyword`
    * `TokenKind.ofWord_primitive`
    * `TokenKind.ofWord_bool`
    * `TokenKind.ofWord_inj`
-/

namespace FeSyntax

namespace TokenKind

------------------------------------------------------------
-- Reserved Words
------------------------------------------------------------

/- Every entry of the table is written as its word. -/
theorem word?_of_mem_reservedWords :
    ∀ entry ∈ reservedWords,
      entry.2.word? = some entry.1 := by
  decide

/- The kind of a reserved word is written as that word. -/
theorem word?_of_reserved?_eq_some
    {word : String}
    {kind : TokenKind}
    (hKind : reserved? word = some kind) :
    kind.word? = some word := by
  rcases List.lookup_eq_some_iff.mp hKind with
    ⟨before, behind, hTable, _⟩
  have hMem : (word, kind) ∈ reservedWords := by
    rw [hTable]
    simp
  exact word?_of_mem_reservedWords _ hMem

/- The kind of a word is written as that word. -/
@[simp]
theorem word?_ofWord
    (word : String) :
    (ofWord word).word? = some word := by
  unfold ofWord
  cases hKind : reserved? word with
  | none => rfl
  | some kind => exact word?_of_reserved?_eq_some hKind

@[simp]
theorem ofWord_keyword
    (k : Keyword) :
    ofWord k.spelling = keyword k := by
  cases k <;> decide

@[simp]
theorem ofWord_primitive
    (p : Primitive) :
    ofWord p.spelling = primitive p := by
  cases p <;> decide

@[simp]
theorem ofWord_bool
    (b : Bool) :
    ofWord (boolSpelling b) = bool b := by
  cases b <;> decide

/- Different words have different kinds. -/
theorem ofWord_inj
    {v w : String} :
    ofWord v = ofWord w ↔ v = w := by
  constructor
  · intro hKind
    have hWord := congrArg word? hKind
    simpa using hWord
  · rintro rfl
    rfl

/- No word is a punctuation mark. -/
theorem ofWord_ne_punct
    {word : String}
    {mark : Punct} :
    ofWord word ≠ punct mark := by
  intro hKind
  have hWord := congrArg word? hKind
  rw [word?_ofWord] at hWord
  cases hWord

------------------------------------------------------------
-- Proper Kinds
------------------------------------------------------------

/-
  A kind is proper when it is the kind of the word that it
  is written as.  An identifier that is written like a
  reserved word is not, and no text has such a token.
-/
def IsProper
    (kind : TokenKind) : Prop :=
  ∀ word, kind.word? = some word → kind = ofWord word

theorem isProper_ofWord
    (word : String) :
    (ofWord word).IsProper := by
  intro other hWord
  rw [word?_ofWord] at hWord
  rw [Option.some.inj hWord]

/- A kind that is not written as a word is proper. -/
theorem isProper_of_word?_eq_none
    {kind : TokenKind}
    (hNone : kind.word? = none) :
    kind.IsProper := by
  intro word hWord
  rw [hNone] at hWord
  exact absurd hWord (by simp)

end TokenKind

end FeSyntax
