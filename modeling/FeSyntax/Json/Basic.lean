import FeSyntax.Json.Body

/-
  This file defines JSON documents.  Numbers and the bodies
  of strings are kept as they are written, because a number
  that is written as an integer differs from the same number
  with a fraction, and a body may stand for no text at all.

  Key definitions include:
    * `Json`
    * `Json.ofNat`
    * `Json.ofText`
    * `Json.record`
    * `Json.toNat?`
    * `Json.toText?`
    * `Json.toBool?`
    * `Json.toItems?`
    * `Json.toRecord?`
-/

namespace FeSyntax

------------------------------------------------------------
-- Documents
------------------------------------------------------------

/- A JSON document without its layout. -/
inductive Json where
  | null
  | bool (value : Bool)
  | number (lexeme : String)
  | string (body : String)
  | array (items : List Json)
  | object (members : List (String × Json))
deriving Repr

namespace Json

------------------------------------------------------------
-- Encoding
------------------------------------------------------------

/- An unsigned integer. -/
def ofNat
    (n : Nat) : Json :=
  number (toString n)

/- A text. -/
def ofText
    (s : String) : Json :=
  string (Body.escape s)

/- A value that may be absent. -/
def ofOption
    (x : Option Json) : Json :=
  x.getD null

/- An object whose keys are given as texts. -/
def record
    (fields : List (String × Json)) : Json :=
  object (fields.map (fun f => (Body.escape f.1, f.2)))

------------------------------------------------------------
-- Decoding
------------------------------------------------------------

/-
  An unsigned integer below a bound.  A sign, a fraction or
  an exponent makes a number no integer.
-/
def toNat?
    (bound : Nat) : Json → Option Nat
  | number lexeme => Text.decimalBelow? bound lexeme.toList
  | _ => none

/- The text of a string. -/
def toText? : Json → Option String
  | string body => Body.unescape? body
  | _ => none

/- A truth value. -/
def toBool? : Json → Option Bool
  | bool b => some b
  | _ => none

/- The items of an array. -/
def toItems? : Json → Option (List Json)
  | array items => some items
  | _ => none

/- The members of an object, with the texts of their keys. -/
def decodeKeys :
    List (String × Json) → Option (List (String × Json)) :=
  List.mapM fun m => do
    let key ← Body.unescape? m.1
    pure (key, m.2)

/- The values of a key among members. -/
def valuesOf
    (members : List (String × Json))
    (key : String) : List Json :=
  (members.filter (fun m => m.1 = key)).map Prod.snd

/-
  The value of a key that may be absent.  A key that is
  repeated has no value, and is refused.
-/
def fieldOf?
    (members : List (String × Json))
    (key : String) : Option (Option Json) :=
  match valuesOf members key with
  | [] => some none
  | [value] => some (some value)
  | _ => none

/- Items in order, followed by absent ones. -/
def padItems : List String → List Json → List (Option Json)
  | [], _ => []
  | _ :: keys, [] => none :: padItems keys []
  | _ :: keys, item :: items => some item :: padItems keys items

/-
  The values of known keys, some of which may be absent.  An
  object gives them by name and may have other members; an
  array gives them in order and may not have other items.
-/
def toRecord?
    (keys : List String) :
    Json → Option (List (Option Json))
  | object members => do
      let members ← decodeKeys members
      keys.mapM (fieldOf? members)
  | array items =>
      if items.length ≤ keys.length then
        some (padItems keys items)
      else
        none
  | _ => none

end Json

end FeSyntax
