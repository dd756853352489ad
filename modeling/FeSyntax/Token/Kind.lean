import FeSyntax.Token.Word

/-
  This file defines what a token can be: a reserved word,
  an identifier, a literal, a punctuation mark, a comment,
  the end of the text, or an error that says why the text
  is no token.

  Key definitions include:
    * `Punct`
    * `LexError`
    * `TokenKind`
    * `TokenKind.reserved?`
    * `TokenKind.ofWord`
    * `TokenKind.word?`
    * `TokenKind.nodeKind?`
    * `TokenKind.display`
    * `TokenClass`
    * `TokenKind.classes`
-/

namespace FeSyntax

------------------------------------------------------------
-- Punctuation
------------------------------------------------------------

/- The punctuation marks. -/
inductive Punct where
  | colonColon
  | arrow
  | fatArrow
  | leftBrace
  | rightBrace
  | leftParen
  | rightParen
  | leftAngle
  | rightAngle
  | comma
  | semicolon
  | colon
  | equals
  | ampersand
deriving DecidableEq, Repr

namespace Punct

/-
  Every punctuation mark, in table order.  A mark of two
  characters stands before each mark that starts like it.
-/
def all : List Punct :=
  [ colonColon, arrow, fatArrow, leftBrace, rightBrace,
    leftParen, rightParen, leftAngle, rightAngle, comma,
    semicolon, colon, equals, ampersand ]

/- How a mark is written. -/
def spelling : Punct → String
  | colonColon => "::"
  | arrow => "->"
  | fatArrow => "=>"
  | leftBrace => "\x7b"
  | rightBrace => "\x7d"
  | leftParen => "("
  | rightParen => ")"
  | leftAngle => "<"
  | rightAngle => ">"
  | comma => ","
  | semicolon => ";"
  | colon => ":"
  | equals => "="
  | ampersand => "&"

/- The list of punctuation marks leaves none out. -/
theorem mem_all
    (p : Punct) :
    p ∈ all := by
  cases p <;> decide

end Punct

------------------------------------------------------------
-- Lexical Errors
------------------------------------------------------------

/- Why characters make no token. -/
inductive LexError where
  | unterminatedComment
  | unterminatedString
  | invalidEscape
  | unexpectedCharacter (c : Char)
deriving DecidableEq, Repr

namespace LexError

/- The wording of a lexical error. -/
def message : LexError → String
  | unterminatedComment => "Unterminated block comment"
  | unterminatedString => "Unterminated string literal"
  | invalidEscape =>
      "Invalid escape sequence in string literal"
  | unexpectedCharacter c =>
      "Unexpected character: " ++ c.toString

end LexError

------------------------------------------------------------
-- Token Kinds
------------------------------------------------------------

/-
  The kind of a token, with the value that it carries.
  A number has no value when it needs more than 128 bits.
-/
inductive TokenKind where
  | keyword (word : Keyword)
  | primitive (type : Primitive)
  | bool (value : Bool)
  | identifier (name : String)
  | number (value : Option Nat) (suffix : Option IntSuffix)
  | string (value : String)
  | punct (mark : Punct)
  | comment
  | error (cause : LexError)
  | endOfText
deriving DecidableEq, Repr

namespace TokenKind

/- How a truth value is written. -/
def boolSpelling : Bool → String
  | true => "true"
  | false => "false"

/- The words that are no identifiers, with their kinds. -/
def reservedWords : List (String × TokenKind) :=
  Keyword.all.map (fun k => (k.spelling, keyword k)) ++
    Primitive.all.map (fun p => (p.spelling, primitive p)) ++
    [true, false].map (fun b => (boolSpelling b, bool b))

/- The kind of a reserved word. -/
def reserved?
    (word : String) : Option TokenKind :=
  reservedWords.lookup word

/- The kind of a word: reserved, or else an identifier. -/
def ofWord
    (word : String) : TokenKind :=
  (reserved? word).getD (identifier word)

/-
  The spelling of a token that is written like a word.
  Such a token reads as a name wherever the grammar asks
  for one.
-/
def word? : TokenKind → Option String
  | keyword k => some k.spelling
  | primitive p => some p.spelling
  | bool b => some (boolSpelling b)
  | identifier name => some name
  | _ => none

/-
  The anonymous node that a token stands for in the syntax
  tree: itself, if its kind settles its spelling.
-/
def nodeKind? : TokenKind → Option String
  | keyword k => some k.spelling
  | primitive p => some p.spelling
  | bool b => some (boolSpelling b)
  | punct p => some p.spelling
  | _ => none

/- How messages show a token. -/
def display : TokenKind → String
  | keyword k => k.spelling
  | primitive p => p.spelling
  | bool b => boolSpelling b
  | identifier name => name
  | number none _ => "integer literal"
  | number (some value) none => toString value
  | number (some value) (some suffix) =>
      toString value ++ suffix.spelling
  | string value => "\"" ++ value ++ "\""
  | punct p => p.spelling
  | comment => "comment"
  | error cause => "Error: " ++ cause.message
  | endOfText => "EOF"

end TokenKind

------------------------------------------------------------
-- Token Classes
------------------------------------------------------------

/- The classes of tokens; a token can be in several. -/
inductive TokenClass where
  | keyword
  | word
  | primitive
  | literal
  | bracket
  | delimiter
  | operator
deriving DecidableEq, Repr

namespace TokenClass

/- Every class. -/
def all : List TokenClass :=
  [ keyword, word, primitive, literal, bracket, delimiter,
    operator ]

/- The name of a class. -/
def name : TokenClass → String
  | keyword => "keyword"
  | word => "word"
  | primitive => "primitive"
  | literal => "literal"
  | bracket => "bracket"
  | delimiter => "delimiter"
  | operator => "operator"

end TokenClass

namespace Punct

/- Each punctuation mark is in exactly one class. -/
def tokenClass : Punct → TokenClass
  | leftBrace | rightBrace | leftParen | rightParen
  | leftAngle | rightAngle => .bracket
  | comma | semicolon | colon | colonColon => .delimiter
  | arrow | fatArrow | equals | ampersand => .operator

end Punct

namespace TokenKind

/- The classes of a token, in the order of the class list. -/
def classes : TokenKind → List TokenClass
  | keyword _ => [.keyword, .word]
  | primitive _ => [.word, .primitive]
  | bool _ => [.word, .literal]
  | identifier _ => [.word]
  | number _ _ => [.literal]
  | string _ => [.literal]
  | punct p => [p.tokenClass]
  | comment => []
  | error _ => []
  | endOfText => []

/- Membership of a token in a class. -/
def IsA
    (kind : TokenKind)
    (c : TokenClass) : Prop :=
  c ∈ kind.classes

instance
    (kind : TokenKind)
    (c : TokenClass) :
    Decidable (kind.IsA c) := by
  unfold IsA
  infer_instance

end TokenKind

end FeSyntax
