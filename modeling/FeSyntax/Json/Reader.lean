import FeSyntax.Json.Lexeme

/-
  This file defines how a text is read as a JSON document.
  A machine with a stack of open containers builds the
  document from the lexemes of the text, so that nothing
  limits how deep a document is nested.

  Key definitions include:
    * `Json.Frame`
    * `Json.Builder`
    * `Json.Builder.step?`
    * `Json.read?`
-/

namespace FeSyntax

namespace Json

------------------------------------------------------------
-- Building Documents
------------------------------------------------------------

/- An open container with the parts before, in reverse. -/
inductive Frame where
  | array (before : List Json)
  | object (before : List (String × Json)) (key : String)

/- What the machine waits for, inside open containers. -/
inductive Builder where
  | value (stack : List Frame)
  | firstItem (stack : List Frame)
  | firstKey (stack : List Frame)
  | key
      (stack : List Frame)
      (before : List (String × Json))
  | colon
      (stack : List Frame)
      (before : List (String × Json))
      (key : String)
  | behind (stack : List Frame) (value : Json)

namespace Builder

/- Read a lexeme where a value is due. -/
def startValue?
    (stack : List Frame) :
    Lexeme → Option Builder
  | .openArray => some (firstItem stack)
  | .openObject => some (firstKey stack)
  | .null => some (behind stack .null)
  | .bool b => some (behind stack (.bool b))
  | .number lexeme => some (behind stack (.number lexeme))
  | .string body => some (behind stack (.string body))
  | _ => none

/- Read a lexeme behind a value. -/
def endValue?
    (value : Json) :
    List Frame → Lexeme → Option Builder
  | .array before :: stack, .comma =>
      some (.value (.array (value :: before) :: stack))
  | .array before :: stack, .closeArray =>
      some (behind stack (.array (value :: before).reverse))
  | .object before name :: stack, .comma =>
      some (key stack ((name, value) :: before))
  | .object before name :: stack, .closeObject =>
      some
        (behind stack
          (.object ((name, value) :: before).reverse))
  | _, _ => none

/- Read one lexeme. -/
def step? : Builder → Lexeme → Option Builder
  | value stack, lexeme => startValue? stack lexeme
  | firstItem stack, .closeArray =>
      some (behind stack (.array []))
  | firstItem stack, lexeme =>
      startValue? (.array [] :: stack) lexeme
  | firstKey stack, .closeObject =>
      some (behind stack (.object []))
  | firstKey stack, .string body =>
      some (colon stack [] body)
  | key stack before, .string body =>
      some (colon stack before body)
  | colon stack before name, .colon =>
      some (value (.object before name :: stack))
  | behind stack v, lexeme => endValue? v stack lexeme
  | _, _ => none

/- The document, if the machine has read a whole one. -/
def finish? : Builder → Option Json
  | behind [] v => some v
  | _ => none

end Builder

/- Read a text as one JSON document. -/
def read?
    (text : String) : Option Json := do
  let lexemes ← Lexeme.scanAll? text.toList
  let builder ←
    lexemes.foldlM Builder.step? (.value [])
  builder.finish?

end Json

end FeSyntax
