/-
  This file defines the reserved words of the language:
  the keywords, the names of the primitive types and the
  suffixes of integer literals, each with its spelling.

  Key definitions include:
    * `Keyword`
    * `Keyword.spelling`
    * `Primitive`
    * `Primitive.spelling`
    * `IntSuffix`
    * `IntSuffix.spelling`
    * `IntSuffix.bits`
-/

namespace FeSyntax

------------------------------------------------------------
-- Keywords
------------------------------------------------------------

/- The keywords, the wildcard `_` among them. -/
inductive Keyword where
  | modKw
  | traitKw
  | implKw
  | forKw
  | matchKw
  | pubKw
  | fnKw
  | structKw
  | constKw
  | typeKw
  | letKw
  | mutKw
  | underscore
deriving DecidableEq, Repr

namespace Keyword

/- Every keyword, in table order. -/
def all : List Keyword :=
  [ modKw, traitKw, implKw, forKw, matchKw, pubKw, fnKw,
    structKw, constKw, typeKw, letKw, mutKw, underscore ]

/- How a keyword is written. -/
def spelling : Keyword → String
  | modKw => "mod"
  | traitKw => "trait"
  | implKw => "impl"
  | forKw => "for"
  | matchKw => "match"
  | pubKw => "pub"
  | fnKw => "fn"
  | structKw => "struct"
  | constKw => "const"
  | typeKw => "type"
  | letKw => "let"
  | mutKw => "mut"
  | underscore => "_"

/- The list of keywords leaves none out. -/
theorem mem_all
    (k : Keyword) :
    k ∈ all := by
  cases k <;> decide

end Keyword

------------------------------------------------------------
-- Primitive Types
------------------------------------------------------------

/- The scalar types that the language names itself. -/
inductive Primitive where
  | bool
  | u8
  | u64
  | u128
  | address
deriving DecidableEq, Repr

namespace Primitive

/- Every primitive type, in table order. -/
def all : List Primitive :=
  [bool, u8, u64, u128, address]

/- How a primitive type is written. -/
def spelling : Primitive → String
  | bool => "bool"
  | u8 => "u8"
  | u64 => "u64"
  | u128 => "u128"
  | address => "address"

/- The list of primitive types leaves none out. -/
theorem mem_all
    (p : Primitive) :
    p ∈ all := by
  cases p <;> decide

end Primitive

------------------------------------------------------------
-- Integer Suffixes
------------------------------------------------------------

/- The width that an integer literal may name. -/
inductive IntSuffix where
  | u8
  | u64
  | u128
deriving DecidableEq, Repr

namespace IntSuffix

/- Every suffix. -/
def all : List IntSuffix :=
  [u8, u64, u128]

/- How a suffix is written behind the digits. -/
def spelling : IntSuffix → String
  | u8 => "u8"
  | u64 => "u64"
  | u128 => "u128"

/- The number of bits of the named width. -/
def bits : IntSuffix → Nat
  | u8 => 8
  | u64 => 64
  | u128 => 128

/- The list of suffixes leaves none out. -/
theorem mem_all
    (s : IntSuffix) :
    s ∈ all := by
  cases s <;> decide

end IntSuffix

end FeSyntax
