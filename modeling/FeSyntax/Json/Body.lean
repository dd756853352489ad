import FeSyntax.Text.Digit

/-
  This file defines how a text is written between the quotes
  of a JSON string, and which text such a string stands for.
  The characters between the quotes are the body of the
  string.

  Key definitions include:
    * `Json.Body.escape`
    * `Json.Body.unescape?`
-/

namespace FeSyntax

namespace Json

namespace Body

------------------------------------------------------------
-- Writing
------------------------------------------------------------

/- An escape with the four digits of a code below 256. -/
def escapeCode
    (n : Nat) : List Char :=
  ['\\', 'u', '0', '0', Nat.digitChar (n / 16),
    Nat.digitChar (n % 16)]

/-
  A character as it is written.  Quotes, backslashes and
  control characters below the blank are escaped, and
  nothing else is.
-/
def escapeChar
    (c : Char) : List Char :=
  if c = '"' then ['\\', '"']
  else if c = '\\' then ['\\', '\\']
  else if c = '\n' then ['\\', 'n']
  else if c = '\t' then ['\\', 't']
  else if c = '\r' then ['\\', 'r']
  else if c = '\x08' then ['\\', 'b']
  else if c = '\x0c' then ['\\', 'f']
  else if c < ' ' then escapeCode c.toNat
  else [c]

/- The body of the string that stands for a text. -/
def escape
    (s : String) : String :=
  String.ofList (s.toList.flatMap escapeChar)

------------------------------------------------------------
-- Reading
------------------------------------------------------------

/- The value of four hexadecimal digits. -/
def codeUnit?
    (a b c d : Char) : Option Nat := do
  let w ← Text.hexDigit? a
  let x ← Text.hexDigit? b
  let y ← Text.hexDigit? c
  let z ← Text.hexDigit? d
  pure (((w * 16 + x) * 16 + y) * 16 + z)

/- The character of a short escape. -/
def shortEscape? : Char → Option Char
  | '"' => some '"'
  | '\\' => some '\\'
  | '/' => some '/'
  | 'b' => some '\x08'
  | 'f' => some '\x0c'
  | 'n' => some '\n'
  | 'r' => some '\r'
  | 't' => some '\t'
  | _ => none

/- The first unit of a pair that encodes one character. -/
def IsHighUnit
    (u : Nat) : Prop :=
  0xD800 ≤ u ∧ u ≤ 0xDBFF

instance
    (u : Nat) :
    Decidable (IsHighUnit u) := by
  unfold IsHighUnit
  infer_instance

/- The second unit of a pair that encodes one character. -/
def IsLowUnit
    (u : Nat) : Prop :=
  0xDC00 ≤ u ∧ u ≤ 0xDFFF

instance
    (u : Nat) :
    Decidable (IsLowUnit u) := by
  unfold IsLowUnit
  infer_instance

/- The character that a pair of units encodes. -/
def pairChar
    (high low : Nat) : Char :=
  Char.ofNat
    (0x10000 + (high - 0xD800) * 0x400 + (low - 0xDC00))

/-
  The characters that a body stands for.  There are none if
  a unit of a pair stands alone, or an escape is unknown.
-/
def unescapeChars? : List Char → Option (List Char)
  | '\\' :: 'u' :: a :: b :: c :: d :: cs => do
      let unit ← codeUnit? a b c d
      if IsHighUnit unit then
        match cs with
        | '\\' :: 'u' :: e :: f :: g :: h :: ds => do
            let low ← codeUnit? e f g h
            if IsLowUnit low then
              let rest ← unescapeChars? ds
              pure (pairChar unit low :: rest)
            else
              none
        | _ => none
      else if IsLowUnit unit then
        none
      else
        let rest ← unescapeChars? cs
        pure (Char.ofNat unit :: rest)
  | '\\' :: c :: cs => do
      let meant ← shortEscape? c
      let rest ← unescapeChars? cs
      pure (meant :: rest)
  | '\\' :: [] => none
  | c :: cs => do
      let rest ← unescapeChars? cs
      pure (c :: rest)
  | [] => some []

/- The text that a body stands for. -/
def unescape?
    (body : String) : Option String :=
  (unescapeChars? body.toList).map String.ofList

end Body

end Json

end FeSyntax
