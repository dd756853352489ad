/-
  This file defines the slice of a text between two byte
  offsets.  Offsets count UTF-8 bytes, and a slice exists
  only when both offsets stand between characters.

  Key definitions include:
    * `Text.dropBytes?`
    * `Text.takeBytes?`
    * `Text.slice?`
-/

namespace FeSyntax

namespace Text

------------------------------------------------------------
-- Byte Offsets In Character Lists
------------------------------------------------------------

/- Leave out characters that fill exactly `n` bytes. -/
def dropBytes?
    (n : Nat) :
    List Char → Option (List Char)
  | [] => if n = 0 then some [] else none
  | c :: cs =>
      if n = 0 then
        some (c :: cs)
      else if c.utf8Size ≤ n then
        dropBytes? (n - c.utf8Size) cs
      else
        none

/- The leading characters that fill exactly `n` bytes. -/
def takeBytes?
    (n : Nat) :
    List Char → Option (List Char)
  | [] => if n = 0 then some [] else none
  | c :: cs =>
      if n = 0 then
        some []
      else if c.utf8Size ≤ n then
        (takeBytes? (n - c.utf8Size) cs).map (c :: ·)
      else
        none

------------------------------------------------------------
-- Slices
------------------------------------------------------------

/-
  The text between two byte offsets.  There is none when
  the offsets are reversed, lie outside the text, or stand
  within a character.
-/
def slice?
    (s : String)
    (start stop : Nat) : Option String :=
  if start ≤ stop then do
    let behind ← dropBytes? start s.toList
    let slice ← takeBytes? (stop - start) behind
    pure (String.ofList slice)
  else
    none

end Text

end FeSyntax
