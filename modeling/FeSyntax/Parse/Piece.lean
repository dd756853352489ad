import FeSyntax.Ast.Name
import FeSyntax.Parse.Basic

/-
  This file defines the parsers that the whole grammar is
  built of: single tokens, optional parts, lists between
  marks, and the parsers of names, paths and literals.

  Key definitions include:
    * `Parser.isAt`
    * `Parser.keyword`
    * `Parser.punct`
    * `Parser.whenAt`
    * `Parser.itemsUntil`
    * `Parser.commaList`
    * `Parser.identifier`
    * `Parser.path`
    * `Parser.literal`
    * `Parser.typeParams`
-/

namespace FeSyntax

namespace TokenKind

/- The literal value that a token stands for. -/
def literal? : TokenKind → Option LiteralValue
  | number value suffix => some (.number value suffix)
  | bool b => some (.bool b)
  | string s => some (.string s)
  | _ => none

/- The primitive type that a token names. -/
def primitive? : TokenKind → Option Primitive
  | primitive p => some p
  | _ => none

end TokenKind

namespace Parser

variable {α : Type}

------------------------------------------------------------
-- Single Tokens
------------------------------------------------------------

/- Whether the current token is of a kind. -/
def isAt
    (kind : TokenKind) : Parser Bool := do
  let current ← peek
  pure (current = some kind)

/- Pass a token of a kind, and give its span. -/
def token
    (what : Expectation)
    (kind : TokenKind) : Parser Span := do
  let (_, span) ←
    accept what (fun k => if k = kind then some () else none)
  pure span

/- Pass a keyword. -/
def keyword
    (k : Keyword) : Parser Span :=
  token (.keyword k) (.keyword k)

/- Pass a punctuation mark. -/
def punct
    (p : Punct) : Parser Span :=
  token (.punct p) (.punct p)

------------------------------------------------------------
-- Optional Parts
------------------------------------------------------------

/- Parse a part that is there if it starts with `kind`. -/
def whenAt
    (kind : TokenKind)
    (p : Parser α) : Parser (Option α) := do
  if ← isAt kind then
    some <$> p
  else
    pure none

/- Pass a keyword if it comes next. -/
def keyword?
    (k : Keyword) : Parser (Option Span) :=
  whenAt (.keyword k) (keyword k)

/- Pass a punctuation mark if it comes next. -/
def punct?
    (p : Punct) : Parser (Option Span) :=
  whenAt (.punct p) (punct p)

------------------------------------------------------------
-- Lists
------------------------------------------------------------

/-
  Items up to a closing mark, which is passed as well; its
  span comes with the items.
-/
def itemsUntil
    (close : Punct)
    (item : Parser α) : Parser (List α × Span) :=
  collect (.punct close) do
    match ← punct? close with
    | some span => pure (.inr span)
    | none => .inl <$> item

/- The items that follow a mark each. -/
def itemsAfter
    (mark : Punct)
    (item : Parser α) : Parser (List α) := do
  let (items, _) ←
    collect (.punct mark) do
      match ← punct? mark with
      | some _ => .inl <$> item
      | none => pure (.inr ())
  pure items

/- One or more items with commas between them. -/
def commaItems
    (item : Parser α) : Parser (List α) := do
  let first ← item
  let more ← itemsAfter .comma item
  pure (first :: more)

/-
  Items with commas between them, up to a closing mark that
  is passed as well.  No comma stands behind the last item.
-/
def commaList
    (close : Punct)
    (item : Parser α) : Parser (List α × Span) := do
  match ← punct? close with
  | some span => pure ([], span)
  | none =>
      let items ← commaItems item
      let span ← punct close
      pure (items, span)

------------------------------------------------------------
-- Names
------------------------------------------------------------

/- A name: any word, keywords included. -/
def identifier : Parser Identifier := do
  let (name, span) ← accept .identifier TokenKind.word?
  pure ⟨name, span⟩

/- Names joined by `::`. -/
def path : Parser Path := do
  let first ← identifier
  let more ← itemsAfter .colonColon identifier
  let last := more.getLastD first
  pure ⟨first :: more, first.span.through last.span⟩

/- The names of type parameters, possibly none at all. -/
def typeParams : Parser (List Identifier) := do
  match ← punct? .leftAngle with
  | some _ =>
      let names ← commaItems identifier
      let _ ← punct .rightAngle
      pure names
  | none => pure []

------------------------------------------------------------
-- Literals
------------------------------------------------------------

/- A literal, where `what` is asked for. -/
def literal
    (what : Expectation) : Parser Literal := do
  let (value, span) ← accept what TokenKind.literal?
  pure ⟨value, span⟩

end Parser

end FeSyntax
