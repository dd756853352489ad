import FeSyntax.Token.Scan

/-
  This file defines the token language by its texts: which
  characters make a token, and of which kind, said without
  reference to how a scanner finds them.  It also defines
  what a text without a token looks like.

  Key definitions include:
    * `Lexeme.StringText`
    * `Lexeme.TokenText`
    * `Lexeme.MalformedText`

  Key theorems include:
    * `Lexeme.StringText.unique`
    * `Lexeme.TokenText.ne_nil`
-/

namespace FeSyntax

namespace Lexeme

------------------------------------------------------------
-- Texts Between Quotes
------------------------------------------------------------

/-
  The characters between two quotes, with the value that
  they stand for.  A backslash takes any character behind it
  but a line end.
-/
inductive StringText : List Char → List Char → Prop where
  | nil :
      StringText [] []
  | plain
      {c : Char}
      {text value : List Char}
      (hQuote : c ≠ '"')
      (hEscape : c ≠ '\\')
      (hText : StringText text value) :
      StringText (c :: text) (c :: value)
  | escape
      {c : Char}
      {text value : List Char}
      (hLine : ¬ EndsLine c)
      (hText : StringText text value) :
      StringText ('\\' :: c :: text) (unescape c :: value)

/-
  Where the text of a string stops: at a quote, or for one
  of the reasons why there is no string.
-/
inductive StringStop :
    List Char → Option LexError → Prop where
  | closed
      (rest : List Char) :
      StringStop ('"' :: rest) none
  | lineEnd
      {c : Char}
      (hLine : EndsLine c)
      (rest : List Char) :
      StringStop ('\\' :: c :: rest) (some .invalidEscape)
  | loneEscape :
      StringStop ['\\'] (some .unterminatedString)
  | endOfText :
      StringStop [] (some .unterminatedString)

/- A string stops at a quote or a backslash. -/
theorem StringStop.head_eq
    {c : Char}
    {rest : List Char}
    {stop : Option LexError}
    (hStop : StringStop (c :: rest) stop) :
    c = '"' ∨ c = '\\' := by
  cases hStop with
  | closed _ => exact Or.inl rfl
  | lineEnd _ _ => exact Or.inr rfl
  | loneEscape => exact Or.inr rfl

/- A string stops at no escape but that of a line end. -/
theorem StringStop.endsLine_of_escape
    {c : Char}
    {rest : List Char}
    {stop : Option LexError}
    (hStop : StringStop ('\\' :: c :: rest) stop) :
    EndsLine c := by
  cases hStop with
  | lineEnd hLine _ => exact hLine

/-
  A text is the text of a string and what stops it in one
  way only, whatever the reason for the stop.
-/
theorem StringText.unique
    {text value text' value' tail tail' : List Char}
    {stop stop' : Option LexError}
    (hText : StringText text value)
    (hText' : StringText text' value')
    (hStop : StringStop tail stop)
    (hStop' : StringStop tail' stop')
    (hSame : text ++ tail = text' ++ tail') :
    text = text' ∧ value = value' ∧ tail = tail' := by
  induction hText generalizing text' value' with
  | nil =>
      cases hText' with
      | nil => exact ⟨rfl, rfl, hSame⟩
      | plain hQuote hEscape _ =>
          subst hSame
          rcases hStop.head_eq with hHead | hHead
          · exact absurd hHead hQuote
          · exact absurd hHead hEscape
      | escape hLine _ =>
          subst hSame
          exact absurd hStop.endsLine_of_escape hLine
  | plain hQuote hEscape hText ih =>
      cases hText' with
      | nil =>
          subst hSame
          rcases hStop'.head_eq with hHead | hHead
          · exact absurd hHead hQuote
          · exact absurd hHead hEscape
      | plain _ _ hText' =>
          rcases List.cons.inj hSame with ⟨rfl, hRest⟩
          rcases ih hText' hRest with ⟨rfl, rfl, hTail⟩
          exact ⟨rfl, rfl, hTail⟩
      | escape _ _ =>
          exact absurd (List.cons.inj hSame).1 hEscape
  | escape hLine hText ih =>
      cases hText' with
      | nil =>
          subst hSame
          exact absurd hStop'.endsLine_of_escape hLine
      | plain _ hEscape _ =>
          exact absurd (List.cons.inj hSame).1.symm hEscape
      | escape _ hText' =>
          have hInner := (List.cons.inj hSame).2
          rcases List.cons.inj hInner with ⟨rfl, hRest⟩
          rcases ih hText' hRest with ⟨rfl, rfl, hTail⟩
          exact ⟨rfl, rfl, hTail⟩

------------------------------------------------------------
-- Token Texts
------------------------------------------------------------

/- How an optional suffix is written behind digits. -/
def suffixText
    (suffix : Option IntSuffix) : List Char :=
  (suffix.map (fun s => s.spelling.toList)).getD []

/-
  The text of a token, with the kind of the token.  The
  first closing mark of a block comment is its last, so none
  may be complete one character before the end.
-/
inductive TokenText : List Char → TokenKind → Prop where
  | lineComment
      {body : List Char}
      (hBody : ∀ c ∈ body, ¬ EndsLine c) :
      TokenText ('/' :: '/' :: body) .comment
  | blockComment
      {body : List Char}
      (hFirst : ¬ ['*', '/'] <:+: body ++ ['*']) :
      TokenText
        ('/' :: '*' :: (body ++ ['*', '/'])) .comment
  | string
      {text value : List Char}
      (hText : StringText text value) :
      TokenText
        ('"' :: (text ++ ['"']))
        (.string (String.ofList value))
  | decimal
      {digits : List Char}
      (suffix : Option IntSuffix)
      (hSome : digits ≠ [])
      (hDigits : ∀ d ∈ digits, Text.IsDigit d) :
      TokenText
        (digits ++ suffixText suffix)
        (.number
          (literalValue? (Text.digitsValue 10 digits))
          suffix)
  | hexadecimal
      {digits : List Char}
      (suffix : Option IntSuffix)
      (hSome : digits ≠ [])
      (hDigits : ∀ d ∈ digits, Text.IsHexDigit d) :
      TokenText
        ('0' :: 'x' :: (digits ++ suffixText suffix))
        (.number
          (literalValue? (Text.digitsValue 16 digits))
          suffix)
  | word
      {c : Char}
      {rest : List Char}
      (hStart : StartsWord c)
      (hRest : ∀ d ∈ rest, ContinuesWord d) :
      TokenText
        (c :: rest)
        (.ofWord (String.ofList (c :: rest)))
  | punct
      (p : Punct) :
      TokenText p.spelling.toList (.punct p)

/-
  How a text starts that has no token in front: why that is
  so, and how far the error reaches.
-/
inductive MalformedText :
    List Char → LexError → List Char → Prop where
  | unterminatedComment
      {body : List Char}
      (hOpen : ¬ ['*', '/'] <:+: body) :
      MalformedText
        ('/' :: '*' :: body) .unterminatedComment
        ('/' :: '*' :: body)
  | unterminatedString
      {text value tail : List Char}
      (hText : StringText text value)
      (hStop : StringStop tail (some .unterminatedString)) :
      MalformedText
        ('"' :: (text ++ tail)) .unterminatedString
        ('"' :: (text ++ tail))
  | invalidEscape
      {text value rest : List Char}
      {c : Char}
      (hText : StringText text value)
      (hLine : EndsLine c) :
      MalformedText
        ('"' :: (text ++ '\\' :: c :: rest)) .invalidEscape
        ('"' :: (text ++ ['\\']))
  | unexpectedCharacter
      {c : Char}
      {rest : List Char}
      (hQuote : c ≠ '"')
      (hComment : ¬ ['/', '*'] <+: c :: rest) :
      MalformedText
        (c :: rest) (.unexpectedCharacter c) [c]

/- Every token has characters. -/
theorem TokenText.ne_nil
    {text : List Char}
    {kind : TokenKind}
    (hText : TokenText text kind) :
    text ≠ [] := by
  cases hText with
  | decimal _ hSome _ => simp [hSome]
  | punct p => cases p <;> decide
  | _ => simp

end Lexeme

end FeSyntax
