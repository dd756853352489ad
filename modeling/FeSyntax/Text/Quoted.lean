import FeSyntax.Text.Unprintable

/-
  This file defines how a text is quoted in messages.

  Key definitions include:
    * `Text.quoteChar`
    * `Text.quoted`
-/

namespace FeSyntax

namespace Text

------------------------------------------------------------
-- Quoted Texts
------------------------------------------------------------

/- An escape with the hexadecimal digits of a code. -/
def codeEscape
    (n : Nat) : List Char :=
  ['\\', 'u', '\x7b'] ++ Nat.toDigits 16 n ++ ['\x7d']

/-
  A character inside quotes.  Quotes, backslashes and line
  controls have short escapes, and other unprintable
  characters are given by their codes.
-/
def quoteChar
    (c : Char) : List Char :=
  if c = '"' then ['\\', '"']
  else if c = '\\' then ['\\', '\\']
  else if c = '\n' then ['\\', 'n']
  else if c = '\r' then ['\\', 'r']
  else if c = '\t' then ['\\', 't']
  else if c = '\x00' then ['\\', '0']
  else if IsUnprintable c then codeEscape c.toNat
  else [c]

/- A text between quotes. -/
def quoted
    (s : String) : String :=
  "\"" ++ String.ofList (s.toList.flatMap quoteChar) ++ "\""

end Text

end FeSyntax
