import FeSyntax.Proofs.Lexing.Delimited
import FeSyntax.Proofs.Parsing.Source

/-
  This file proves that string literals can express every
  text, and that a literal stands for one text only.  A text
  with a backslash before each quote and each backslash of
  it is scanned as a literal with that value, whatever
  follows, and the value of every literal is what stands
  between its quotes with the escapes replaced.

  Key definitions include:
    * `StringLiteral.meaning`
    * `StringLiteral.decode`
    * `StringLiteral.escape`
    * `StringLiteral.ofValue`

  Key theorems include:
    * `StringLiteral.stringText_escape`
    * `StringLiteral.decode_of_stringText`
    * `Lexeme.stringBody_of_stringText`
    * `Scanner.next_of_stringLiteral`
    * `StringLiteral.expresses_and_decodes`
-/

namespace FeSyntax

namespace StringLiteral

------------------------------------------------------------
-- Escapes
------------------------------------------------------------

/- The characters that mean another one when escaped. -/
def escapes : List (Char × Char) :=
  [('n', '\n'), ('t', '\t'), ('r', '\r'), ('0', '\x00')]

/- What an escaped character means. -/
def meaning
    (c : Char) : Char :=
  (escapes.lookup c).getD c

/- Replace the escapes of a text from left to right. -/
def decode : List Char → List Char
  | '\\' :: c :: cs => meaning c :: decode cs
  | c :: cs => c :: decode cs
  | [] => []

/- Put a backslash before each quote and each backslash. -/
def escape
    (cs : List Char) : List Char :=
  cs.flatMap fun c =>
    if c = '\\' ∨ c = '"' then ['\\', c] else [c]

/- The literal that is written for a value. -/
def ofValue
    (value : String) : String :=
  "\"" ++ String.ofList (escape value.toList) ++ "\""

theorem toList_ofValue
    (value : String) :
    (ofValue value).toList =
      '"' :: (escape value.toList ++ ['"']) := by
  simp [ofValue]

theorem meaning_eq_unescape
    (c : Char) :
    meaning c = Lexeme.unescape c := by
  unfold Lexeme.unescape
  split
  · rfl
  · rfl
  · rfl
  · rfl
  · next hN hT hR hZero =>
      have hNone : escapes.lookup c = none := by
        rw [List.lookup_eq_none_iff]
        simpa [escapes] using ⟨hN, hT, hR, hZero⟩
      rw [meaning, hNone]
      rfl

/- What a backslash hides means itself. -/
theorem unescape_of_hidden
    {c : Char}
    (hHidden : c = '\\' ∨ c = '"') :
    Lexeme.unescape c = c ∧ ¬ Lexeme.EndsLine c := by
  rcases hHidden with rfl | rfl <;> decide

theorem decode_cons_of_ne
    {c : Char}
    (hEscape : c ≠ '\\')
    (cs : List Char) :
    decode (c :: cs) = c :: decode cs := by
  rw [decode]
  intro d rest hSame
  exact absurd hSame hEscape

------------------------------------------------------------
-- Texts Between Quotes
------------------------------------------------------------

/- An escaped text stands between quotes for itself. -/
theorem stringText_escape
    (cs : List Char) :
    Lexeme.StringText (escape cs) cs := by
  induction cs with
  | nil => exact .nil
  | cons c cs ih =>
      rw [escape, List.flatMap_cons, ← escape]
      by_cases hHidden : c = '\\' ∨ c = '"'
      · rcases unescape_of_hidden hHidden with
          ⟨hSame, hLine⟩
        have hText := Lexeme.StringText.escape hLine ih
        rw [hSame] at hText
        rw [if_pos hHidden]
        exact hText
      · rcases not_or.mp hHidden with ⟨hEscape, hQuote⟩
        rw [if_neg hHidden]
        exact .plain hQuote hEscape ih

/- Decoding a text between quotes gives its value. -/
theorem decode_of_stringText
    {text value : List Char}
    (hText : Lexeme.StringText text value) :
    decode text = value := by
  induction hText with
  | nil => rfl
  | plain hQuote hEscape hText ih =>
      rw [decode_cons_of_ne hEscape, ih]
  | escape hLine hText ih =>
      rw [decode, meaning_eq_unescape, ih]

end StringLiteral

------------------------------------------------------------
-- Scanning
------------------------------------------------------------

/- A token with a value has its text between quotes. -/
theorem Lexeme.TokenText.exists_stringText
    {text : List Char}
    {kind : TokenKind}
    {value : String}
    (hText : TokenText text kind)
    (hKind : kind = .string value) :
    ∃ body read,
      text = '"' :: (body ++ ['"']) ∧
        StringText body read ∧
        value = String.ofList read := by
  cases hText with
  | @string body read hBody =>
      cases hKind
      exact ⟨body, read, rfl, hBody, rfl⟩
  | word hStart hRest =>
      have hWord := congrArg TokenKind.word? hKind
      rw [TokenKind.word?_ofWord] at hWord
      cases hWord
  | _ => cases hKind

/- A text between quotes is scanned to the closing quote. -/
theorem Lexeme.stringBody_of_stringText
    {text value : List Char}
    (hText : StringText text value)
    (read : List Char)
    (n : Nat)
    (rest : List Char) :
    stringBody read n (text ++ '"' :: rest) =
      ⟨ .string (String.ofList (read.reverse ++ value)),
        n + text.length + 1 ⟩ := by
  induction hText generalizing read n with
  | nil => simp [stringBody]
  | @plain c text value hQuote hEscape hText ih =>
      have hStep :
          stringBody read n (c :: (text ++ '"' :: rest)) =
            stringBody (c :: read) (n + 1)
              (text ++ '"' :: rest) := by
        rw [stringBody] <;> simp [hQuote, hEscape]
      rw [List.cons_append, hStep, ih, List.reverse_cons,
        List.append_assoc, List.length_cons]
      exact congrArg (Lexeme.mk _) (by omega)
  | @escape c text value hLine hText ih =>
      rw [List.cons_append, List.cons_append, stringBody,
        if_neg hLine, ih, List.reverse_cons,
        List.append_assoc, List.length_cons,
        List.length_cons]
      exact congrArg (Lexeme.mk _) (by omega)

namespace Scanner

/- No blanks are passed in front of another character. -/
theorem skipBlanks_of_cons
    {s : Scanner}
    {c : Char}
    {cs : List Char}
    (hRest : s.rest = c :: cs)
    (hOther : ¬ Text.IsBlank c) :
    s.skipBlanks = s := by
  rcases s with ⟨rest, place⟩
  subst hRest
  rw [skipBlanks_eq]
  simp [hOther]

/-
  A scanner at a literal gives it as one token, and stands
  behind its closing quote.
-/
theorem next_of_stringLiteral
    (value : String)
    (rest : List Char)
    (p : Place) :
    let text := StringLiteral.ofValue value
    let stop := p.afterAll text.toList
    (⟨text.toList ++ rest, p⟩ : Scanner).next =
      (⟨.string value, text, .between p stop⟩,
        ⟨rest, stop⟩) := by
  intro text stop
  let s : Scanner := ⟨text.toList ++ rest, p⟩
  have hChars :
      s.rest =
        '"' :: (StringLiteral.escape value.toList ++
          '"' :: rest) := by
    simp only [s, text, StringLiteral.toList_ofValue]
    simp
  have hStart : s.skipBlanks = s :=
    skipBlanks_of_cons hChars (by decide)
  have hScan :
      Lexeme.scan s.rest =
        ⟨.string value, text.toList.length⟩ := by
    have hText :=
      StringLiteral.stringText_escape value.toList
    have hLength :
        1 + (StringLiteral.escape value.toList).length + 1 =
          text.toList.length := by
      rw [StringLiteral.toList_ofValue, List.length_cons,
        List.length_append, List.length_singleton]
      omega
    rw [hChars, Lexeme.scan_quote,
      Lexeme.stringBody_of_stringText hText, hLength]
    simp
  have hStop :
      s.skip text.toList.length = ⟨rest, stop⟩ :=
    skip_of_append rfl
  change s.next = _
  unfold next
  simp only [hStart, hScan, hStop]
  simp [s]

end Scanner

------------------------------------------------------------
-- Main Result
------------------------------------------------------------

namespace StringLiteral

/-
  Every text is the value of a literal.  What is written for
  it, with anything behind it, is scanned as a token with
  that value, which stops at the closing quote.  And in any
  source, the text of a token with a value stands between
  quotes, and decodes to that value.
-/
theorem expresses_and_decodes
    (value behind source : String) :
    (∃ more,
      tokenize (ofValue value ++ behind) =
        ⟨ .string value, ofValue value,
          ⟨0, (ofValue value).utf8ByteSize, 1, 1⟩ ⟩ ::
          more) ∧
    ∀ t ∈ tokenize source, ∀ read,
      t.kind = .string read →
      ∃ body : String,
        t.text = "\"" ++ body ++ "\"" ∧
          read = String.ofList (decode body.toList) := by
  constructor
  · have hNext :=
      Scanner.next_of_stringLiteral value behind.toList .start
    simp only [← String.toList_append] at hNext
    change (Scanner.ofString _).next = _ at hNext
    have hMore :
        (Scanner.ofString
          (ofValue value ++ behind)).skipBlanks.rest ≠ [] := by
      intro hEnd
      rw [Scanner.next_of_end hEnd] at hNext
      cases hNext
    rw [tokenize, Scanner.tokens_of_more hMore, hNext]
    refine ⟨_, congrArg (· :: _) ?_⟩
    simp [Span.between, Place.offset_afterAll, Place.start]
  · intro t hMem read hKind
    have hText :=
      (Scanner.ofString source).tokenText_of_mem_tokens hMem
        (by simp [hKind]) (by simp [hKind])
    rcases hText.exists_stringText hKind with
      ⟨body, value, hChars, hBody, rfl⟩
    refine ⟨String.ofList body, ?_, ?_⟩
    · rw [← String.toList_inj, hChars]
      simp
    · rw [String.toList_ofList, decode_of_stringText hBody]

end StringLiteral

end FeSyntax
