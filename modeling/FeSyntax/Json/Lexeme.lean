import FeSyntax.Json.Basic

/-
  This file defines how a text is cut into the lexemes of
  JSON: the marks, the fixed words, numbers and strings.

  Key definitions include:
    * `Json.Lexeme`
    * `Json.Lexeme.scan?`
    * `Json.Lexeme.scanAll?`
-/

namespace FeSyntax

namespace Json

------------------------------------------------------------
-- Lexemes
------------------------------------------------------------

/- The smallest parts of a JSON text. -/
inductive Lexeme where
  | openArray
  | closeArray
  | openObject
  | closeObject
  | colon
  | comma
  | null
  | bool (value : Bool)
  | number (lexeme : String)
  | string (body : String)
deriving DecidableEq, Repr

namespace Lexeme

/- The blanks of JSON. -/
def isBlank
    (c : Char) : Bool :=
  c = ' ' || c = '\t' || c = '\n' || c = '\r'

/- The length of the digits in front. -/
def digitsLength
    (cs : List Char) : Nat :=
  (cs.takeWhile (fun c => Text.IsDigit c)).length

/-
  The length of an integer part: a zero, or digits that do
  not start with one.
-/
def integerLength? : List Char → Option Nat
  | '0' :: _ => some 1
  | cs =>
      match digitsLength cs with
      | 0 => none
      | n => some n

/-
  The length of a fraction, which may be left out.  A point
  needs digits behind it.
-/
def fractionLength? : List Char → Option Nat
  | '.' :: cs =>
      match digitsLength cs with
      | 0 => none
      | n => some (n + 1)
  | _ => some 0

/- The length of a sign, which may be left out. -/
def signLength : List Char → Nat
  | '+' :: _ => 1
  | '-' :: _ => 1
  | _ => 0

/-
  The length of an exponent, which may be left out.  Its
  letter needs digits behind it.
-/
def exponentLength? : List Char → Option Nat
  | c :: cs =>
      if c = 'e' ∨ c = 'E' then
        let sign := signLength cs
        match digitsLength (cs.drop sign) with
        | 0 => none
        | n => some (n + sign + 1)
      else
        some 0
  | [] => some 0

/- The length of a number. -/
def numberLength?
    (cs : List Char) : Option Nat := do
  let sign :=
    match cs with
    | '-' :: _ => 1
    | _ => 0
  let integer ← integerLength? (cs.drop sign)
  let mantissa := sign + integer
  let fraction ← fractionLength? (cs.drop mantissa)
  let exponent ←
    exponentLength? (cs.drop (mantissa + fraction))
  pure (mantissa + fraction + exponent)

/-
  The length of a string body up to its closing quote, `n`
  characters being counted before it.  A control character
  below the blank must be escaped, and every escape must be
  well formed.
-/
def bodyLength?
    (n : Nat) :
    List Char → Option Nat
  | '"' :: _ => some n
  | '\\' :: 'u' :: a :: b :: c :: d :: cs =>
      if (Body.codeUnit? a b c d).isSome then
        bodyLength? (n + 6) cs
      else
        none
  | '\\' :: c :: cs =>
      if (Body.shortEscape? c).isSome then
        bodyLength? (n + 2) cs
      else
        none
  | c :: cs =>
      if c < ' ' then none else bodyLength? (n + 1) cs
  | [] => none

/- The first `n` characters as a string. -/
def leading
    (n : Nat)
    (cs : List Char) : String :=
  String.ofList (cs.take n)

/- A lexeme with a fixed spelling. -/
def scanFixed?
    (cs : List Char) : Option (Lexeme × Nat) :=
  match cs with
  | '[' :: _ => some (openArray, 1)
  | ']' :: _ => some (closeArray, 1)
  | '\x7b' :: _ => some (openObject, 1)
  | '\x7d' :: _ => some (closeObject, 1)
  | ':' :: _ => some (colon, 1)
  | ',' :: _ => some (comma, 1)
  | 'n' :: 'u' :: 'l' :: 'l' :: _ => some (null, 4)
  | 't' :: 'r' :: 'u' :: 'e' :: _ => some (bool true, 4)
  | 'f' :: 'a' :: 'l' :: 's' :: 'e' :: _ =>
      some (bool false, 5)
  | _ => none

/- A string or a number. -/
def scanVariable?
    (cs : List Char) : Option (Lexeme × Nat) :=
  match cs with
  | '"' :: body => do
      let n ← bodyLength? 0 body
      pure (string (leading n body), n + 2)
  | _ => do
      let n ← numberLength? cs
      pure (number (leading n cs), n)

/- The lexeme that `cs` starts with, and its length. -/
def scan?
    (cs : List Char) : Option (Lexeme × Nat) :=
  scanFixed? cs <|> scanVariable? cs

/-
  The lexemes of a text, in reverse before `found`.  Every
  step passes a character, so `fuel` of one more than the
  length is enough.
-/
def scanWithin?
    (found : List Lexeme)
    (cs : List Char) :
    Nat → Option (List Lexeme)
  | 0 => none
  | fuel + 1 =>
      match cs.dropWhile isBlank with
      | [] => some found.reverse
      | ds =>
          match scan? ds with
          | some (lexeme, n) =>
              scanWithin? (lexeme :: found) (ds.drop n) fuel
          | none => none

/- The lexemes of a text. -/
def scanAll?
    (cs : List Char) : Option (List Lexeme) :=
  scanWithin? [] cs (cs.length + 1)

end Lexeme

end Json

end FeSyntax
