/-
  This file defines places and spans of a source text.
  Offsets count UTF-8 bytes from 0, lines and columns are
  counted from 1, a column counts characters, and only a
  line feed starts a new line.

  Key definitions include:
    * `Place`
    * `Place.after`
    * `Place.afterAll`
    * `Span`
    * `Span.through`
    * `Span.length?`
    * `Span.IsEmpty`
-/

namespace FeSyntax

------------------------------------------------------------
-- Places
------------------------------------------------------------

/- A place in a source text, between two characters. -/
structure Place where
  offset : Nat
  line : Nat
  column : Nat
deriving DecidableEq, Repr

namespace Place

/- The place before the first character of a text. -/
def start : Place :=
  ⟨0, 1, 1⟩

/- The place behind a character that stands at `p`. -/
def after
    (p : Place)
    (c : Char) : Place :=
  if c = '\n' then
    ⟨p.offset + c.utf8Size, p.line + 1, 1⟩
  else
    ⟨p.offset + c.utf8Size, p.line, p.column + 1⟩

/- The place behind characters that start at `p`. -/
def afterAll
    (p : Place)
    (cs : List Char) : Place :=
  cs.foldl after p

@[simp]
theorem afterAll_nil
    (p : Place) :
    p.afterAll [] = p :=
  rfl

@[simp]
theorem afterAll_cons
    (p : Place)
    (c : Char)
    (cs : List Char) :
    p.afterAll (c :: cs) = (p.after c).afterAll cs :=
  rfl

/- Passing two runs of characters passes both in turn. -/
theorem afterAll_append
    (p : Place)
    (cs ds : List Char) :
    p.afterAll (cs ++ ds) = (p.afterAll cs).afterAll ds := by
  simp [afterAll, List.foldl_append]

end Place

------------------------------------------------------------
-- Spans
------------------------------------------------------------

/-
  A span covers the bytes from `start` up to `stop`, and
  carries the line and column of its start.
-/
structure Span where
  start : Nat
  stop : Nat
  line : Nat
  column : Nat
deriving DecidableEq, Repr

namespace Span

/- The span from one place to a later one. -/
def between
    (p q : Place) : Span :=
  ⟨p.offset, q.offset, p.line, p.column⟩

/- The span from the start of `a` through the end of `b`. -/
def through
    (a b : Span) : Span :=
  { a with stop := b.stop }

/- The number of bytes covered, if the span is not reversed. -/
def length?
    (s : Span) : Option Nat :=
  if s.start ≤ s.stop then
    some (s.stop - s.start)
  else
    none

/- A span is empty when it ends where it starts. -/
def IsEmpty
    (s : Span) : Prop :=
  s.start = s.stop

instance
    (s : Span) :
    Decidable s.IsEmpty := by
  unfold IsEmpty
  infer_instance

end Span

end FeSyntax
