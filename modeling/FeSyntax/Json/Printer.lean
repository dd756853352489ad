import FeSyntax.Json.Basic

/-
  This file defines two ways to print a JSON document: on
  one line without blanks, and with one item a line, where
  every level is indented by two blanks.

  Key definitions include:
    * `Json.compact`
    * `Json.pretty`
-/

namespace FeSyntax

namespace Json

------------------------------------------------------------
-- Compact Text
------------------------------------------------------------

/- Write a string with its quotes behind `out`. -/
def writeString
    (out body : String) : String :=
  out ++ "\"" ++ body ++ "\""

/- How a truth value is written. -/
def boolText : Bool → String
  | true => "true"
  | false => "false"

mutual

/- Write a document on one line behind `out`. -/
def writeCompact
    (out : String) : Json → String
  | null => out ++ "null"
  | bool b => out ++ boolText b
  | number lexeme => out ++ lexeme
  | string body => writeString out body
  | array [] => out ++ "[]"
  | array (item :: items) =>
      writeCompactItems (writeCompact (out ++ "[") item) items
  | object [] => out ++ "\x7b\x7d"
  | object ((key, value) :: members) =>
      writeCompactMembers
        (writeCompact
          (writeString (out ++ "\x7b") key ++ ":") value)
        members

/- Write the items that follow the first one. -/
def writeCompactItems
    (out : String) : List Json → String
  | [] => out ++ "]"
  | item :: items =>
      writeCompactItems (writeCompact (out ++ ",") item) items

/- Write the members that follow the first one. -/
def writeCompactMembers
    (out : String) : List (String × Json) → String
  | [] => out ++ "\x7d"
  | (key, value) :: members =>
      writeCompactMembers
        (writeCompact
          (writeString (out ++ ",") key ++ ":") value)
        members

end

/- The text of a document on one line. -/
def compact
    (j : Json) : String :=
  writeCompact "" j

------------------------------------------------------------
-- Indented Text
------------------------------------------------------------

/- Start a line at a level behind `out`. -/
def writeLine
    (out : String)
    (level : Nat) : String :=
  out ++ "\n" ++ String.ofList (List.replicate (2 * level) ' ')

mutual

/- Write a document that stands at a level behind `out`. -/
def writePretty
    (out : String)
    (level : Nat) : Json → String
  | null => out ++ "null"
  | bool b => out ++ boolText b
  | number lexeme => out ++ lexeme
  | string body => writeString out body
  | array [] => out ++ "[]"
  | array (item :: items) =>
      writePrettyItems
        (writePretty
          (writeLine (out ++ "[") (level + 1)) (level + 1)
          item)
        level items
  | object [] => out ++ "\x7b\x7d"
  | object ((key, value) :: members) =>
      writePrettyMembers
        (writePretty
          (writeString
            (writeLine (out ++ "\x7b") (level + 1)) key ++
              ": ")
          (level + 1) value)
        level members

/- Write the items that follow the first one. -/
def writePrettyItems
    (out : String)
    (level : Nat) : List Json → String
  | [] => writeLine out level ++ "]"
  | item :: items =>
      writePrettyItems
        (writePretty
          (writeLine (out ++ ",") (level + 1)) (level + 1)
          item)
        level items

/- Write the members that follow the first one. -/
def writePrettyMembers
    (out : String)
    (level : Nat) : List (String × Json) → String
  | [] => writeLine out level ++ "\x7d"
  | (key, value) :: members =>
      writePrettyMembers
        (writePretty
          (writeString
            (writeLine (out ++ ",") (level + 1)) key ++ ": ")
          (level + 1) value)
        level members

end

/- The text of a document with one item a line. -/
def pretty
    (j : Json) : String :=
  writePretty "" 0 j

end Json

end FeSyntax
