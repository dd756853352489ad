import FeSyntax.Text.Blank
import FeSyntax.Text.Digit
import FeSyntax.Token.Basic

/-
  This file defines how characters are cut into tokens.
  `Lexeme.scan` gives the kind and the length of the token that a
  non-blank text starts with; a `Scanner` walks along the
  text and keeps the place, and `tokenize` runs it to the
  end.

  Key definitions include:
    * `Lexeme`
    * `Lexeme.comment?`
    * `Lexeme.string?`
    * `Lexeme.number?`
    * `Lexeme.word?`
    * `Lexeme.punct?`
    * `Lexeme.scan`
    * `Scanner`
    * `Scanner.next`
    * `tokenize`
-/

namespace FeSyntax

------------------------------------------------------------
-- Lexemes
------------------------------------------------------------

/- What a text starts with: a kind and a length. -/
structure Lexeme where
  kind : TokenKind
  length : Nat
deriving DecidableEq, Repr

namespace Lexeme

------------------------------------------------------------
-- Comments
------------------------------------------------------------

/- A line comment ends before either kind of line end. -/
def EndsLine
    (c : Char) : Prop :=
  c = '\n' ∨ c = '\r'

instance
    (c : Char) :
    Decidable (EndsLine c) := by
  unfold EndsLine
  infer_instance

/- The length of a line comment that `cs` starts with. -/
def lineCommentLength
    (cs : List Char) : Nat :=
  (cs.takeWhile (fun c => ¬ EndsLine c)).length

/-
  The length of a text up to and with its first closing
  comment mark, `n` characters being counted before it.
-/
def closingMarkEnd?
    (n : Nat) :
    List Char → Option Nat
  | '*' :: '/' :: _ => some (n + 2)
  | _ :: cs => closingMarkEnd? (n + 1) cs
  | [] => none

/-
  Scan the comment that `cs` starts with.  A block comment
  that nothing closes runs to the end.
-/
def comment?
    (cs : List Char) : Option Lexeme :=
  match cs with
  | '/' :: '/' :: _ =>
      some ⟨.comment, lineCommentLength cs⟩
  | '/' :: '*' :: body =>
      match closingMarkEnd? 2 body with
      | some n => some ⟨.comment, n⟩
      | none =>
          some ⟨.error .unterminatedComment, cs.length⟩
  | _ => none

------------------------------------------------------------
-- Strings
------------------------------------------------------------

/- The character that an escape stands for. -/
def unescape : Char → Char
  | 'n' => '\n'
  | 't' => '\t'
  | 'r' => '\r'
  | '0' => '\x00'
  | c => c

/-
  Scan a string behind its opening quote.  The value so far
  is kept in reverse, and `n` counts the characters read.
-/
def stringBody
    (value : List Char)
    (n : Nat) :
    List Char → Lexeme
  | '"' :: _ =>
      ⟨.string (String.ofList value.reverse), n + 1⟩
  | '\\' :: c :: cs =>
      if EndsLine c then
        ⟨.error .invalidEscape, n + 1⟩
      else
        stringBody (unescape c :: value) (n + 2) cs
  | ['\\'] => ⟨.error .unterminatedString, n + 1⟩
  | c :: cs => stringBody (c :: value) (n + 1) cs
  | [] => ⟨.error .unterminatedString, n⟩

/- Scan the string that `cs` starts with. -/
def string? : List Char → Option Lexeme
  | '"' :: body => some (stringBody [] 1 body)
  | _ => none

------------------------------------------------------------
-- Numbers
------------------------------------------------------------

/- A literal keeps its value if that fits in 128 bits. -/
def literalValue?
    (n : Nat) : Option Nat :=
  if n < Nat.pow 2 128 then some n else none

/-
  The suffix that a text starts with.  No suffix starts
  like another one.
-/
def leadingSuffix?
    (cs : List Char) : Option IntSuffix :=
  IntSuffix.all.find? (fun s => s.spelling.toList.isPrefixOf cs)

/-
  The number lexeme with a mark of the radix, digits and,
  if `rest` starts with one, a suffix.
-/
def ofDigits
    (radix markLength : Nat)
    (digits rest : List Char) : Lexeme :=
  let suffix := leadingSuffix? rest
  let suffixLength :=
    (suffix.map (fun s => s.spelling.length)).getD 0
  let value := literalValue? (Text.digitsValue radix digits)
  ⟨ .number value suffix,
    markLength + digits.length + suffixLength ⟩

/- Scan the decimal number that `cs` starts with. -/
def decimal?
    (cs : List Char) : Option Lexeme :=
  match cs.takeWhile (fun c => Text.IsDigit c) with
  | [] => none
  | digits =>
      some
        (ofDigits 10 0 digits
          (cs.dropWhile (fun c => Text.IsDigit c)))

/-
  Scan the number that `cs` starts with: hexadecimal if the
  mark `0x` has a digit behind it, or else decimal.
-/
def number?
    (cs : List Char) : Option Lexeme :=
  match cs with
  | '0' :: 'x' :: body =>
      match body.takeWhile (fun c => Text.IsHexDigit c) with
      | [] => decimal? cs
      | digits =>
          some
            (ofDigits 16 2 digits
              (body.dropWhile (fun c => Text.IsHexDigit c)))
  | _ => decimal? cs

------------------------------------------------------------
-- Words
------------------------------------------------------------

/- A word starts with a letter or an underscore. -/
def StartsWord
    (c : Char) : Prop :=
  ('a' ≤ c ∧ c ≤ 'z') ∨ ('A' ≤ c ∧ c ≤ 'Z') ∨ c = '_'

instance
    (c : Char) :
    Decidable (StartsWord c) := by
  unfold StartsWord
  infer_instance

/- A word goes on with letters, digits and underscores. -/
def ContinuesWord
    (c : Char) : Prop :=
  StartsWord c ∨ Text.IsDigit c

instance
    (c : Char) :
    Decidable (ContinuesWord c) := by
  unfold ContinuesWord
  infer_instance

/- Scan the word that `cs` starts with. -/
def word? : List Char → Option Lexeme
  | c :: cs =>
      if StartsWord c then
        let word :=
          c :: cs.takeWhile (fun d => ContinuesWord d)
        some ⟨.ofWord (String.ofList word), word.length⟩
      else
        none
  | [] => none

------------------------------------------------------------
-- Punctuation
------------------------------------------------------------

/-
  Scan the punctuation mark that `cs` starts with.  The
  table of marks has the longer marks in front.
-/
def punct?
    (cs : List Char) : Option Lexeme :=
  (Punct.all.find? (fun p => p.spelling.toList.isPrefixOf cs)).map
    (fun p => ⟨.punct p, p.spelling.length⟩)

------------------------------------------------------------
-- One Token
------------------------------------------------------------

/- A character that starts no token stands alone. -/
def unexpected : List Char → Lexeme
  | c :: _ => ⟨.error (.unexpectedCharacter c), 1⟩
  | [] => ⟨.endOfText, 0⟩

/-
  Scan the token that `cs` starts with.  The kinds of token
  start with different characters, so the order of the
  alternatives does not matter.
-/
def scan
    (cs : List Char) : Lexeme :=
  ((comment? cs <|> string? cs) <|>
    (number? cs <|> word? cs) <|>
      punct? cs).getD (unexpected cs)

end Lexeme

------------------------------------------------------------
-- Scanners
------------------------------------------------------------

/- A walk along a text: what is left, and where it starts. -/
structure Scanner where
  rest : List Char
  place : Place
deriving DecidableEq, Repr

namespace Scanner

/- The scanner at the start of a text. -/
def ofString
    (source : String) : Scanner :=
  ⟨source.toList, .start⟩

/- Pass the next `n` characters. -/
def skip
    (s : Scanner)
    (n : Nat) : Scanner :=
  ⟨s.rest.drop n, s.place.afterAll (s.rest.take n)⟩

/- Pass the blank characters in front. -/
def skipBlanks
    (s : Scanner) : Scanner :=
  s.skip (s.rest.takeWhile (fun c => Text.IsBlank c)).length

/-
  The next token, and the scanner behind it.  At the end of
  the text the token is the empty one that says so.
-/
def next
    (s : Scanner) : Token × Scanner :=
  let start := s.skipBlanks
  let lexeme := Lexeme.scan start.rest
  let stop := start.skip lexeme.length
  let token :=
    { kind := lexeme.kind
      text := String.ofList (start.rest.take lexeme.length)
      span := .between start.place stop.place }
  (token, stop)

/- The next `n` tokens. -/
def nextTokens
    (s : Scanner) : Nat → List Token
  | 0 => []
  | n + 1 =>
      let (token, stop) := s.next
      token :: stop.nextTokens n

/-
  Tokens up to the end of the text, at most `fuel` more, in
  reverse before `found`.
-/
def tokensWithin
    (found : List Token)
    (s : Scanner) :
    Nat → List Token
  | 0 => found.reverse
  | fuel + 1 =>
      let (token, stop) := s.next
      if token.kind = .endOfText then
        (token :: found).reverse
      else
        tokensWithin (token :: found) stop fuel

/-
  The tokens of the text that is left, the end included.
  A token other than the end has at least one character, so
  there is one step for each character and one for the end.
-/
def tokens
    (s : Scanner) : List Token :=
  tokensWithin [] s (s.rest.length + 1)

end Scanner

/- The tokens of a source text, the end included. -/
def tokenize
    (source : String) : List Token :=
  (Scanner.ofString source).tokens

end FeSyntax
