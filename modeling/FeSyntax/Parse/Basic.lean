import FeSyntax.Token.Basic

/-
  This file defines parsers over the significant tokens of
  a source text.  A parser reads tokens from the front of a
  list and either is done, with a value and the tokens that
  are left, or stops at the token that it cannot use.  The
  end of the text is the empty list.

  Key definitions include:
    * `Expectation`
    * `Fault`
    * `Outcome`
    * `Parser`
    * `Parser.fail`
    * `Parser.peek`
    * `Parser.accept`
    * `Parser.collect`
-/

namespace FeSyntax

------------------------------------------------------------
-- Faults
------------------------------------------------------------

/- What a parser asks for when it stops. -/
inductive Expectation where
  | keyword (word : Keyword)
  | punct (mark : Punct)
  | identifier
  | definition
  | publicDefinition
  | type
  | expression
  | pattern
  | structBody
  | statementEnd
deriving DecidableEq, Repr

namespace Expectation

/- Spellings in messages stand between grave accents. -/
def quote
    (spelling : String) : String :=
  "\x60" ++ spelling ++ "\x60"

/- The wording of an expectation. -/
def message : Expectation → String
  | keyword k => quote k.spelling
  | punct p => quote p.spelling
  | identifier => "identifier"
  | definition => "definition"
  | publicDefinition =>
      quote "fn" ++ ", " ++ quote "trait" ++ ", " ++
        quote "struct" ++ ", " ++ quote "const" ++ " or " ++
        quote "type"
  | type => "type"
  | expression => "expression"
  | pattern => "pattern"
  | structBody =>
      quote Punct.leftBrace.spelling ++ " or " ++
        quote Punct.semicolon.spelling
  | statementEnd =>
      quote Punct.semicolon.spelling ++ " or " ++
        quote Punct.rightBrace.spelling

end Expectation

/- Why a parser stops at a token. -/
inductive Fault where
  | expected (what : Expectation)
  | tooDeep
deriving DecidableEq, Repr

------------------------------------------------------------
-- Parsers
------------------------------------------------------------

/- How a parser ends: with a value, or at a fault. -/
inductive Outcome (α : Type) where
  | done (value : α) (rest : List Token)
  | stopped (fault : Fault) (rest : List Token)

/- A parser of values of type `α`. -/
def Parser
    (α : Type) : Type :=
  List Token → Outcome α

namespace Parser

variable {α β : Type}

/- Run one parser, and go on with its value. -/
def andThen
    (p : Parser α)
    (f : α → Parser β) : Parser β :=
  fun ts =>
    match p ts with
    | .done a rest => f a rest
    | .stopped fault rest => .stopped fault rest

instance : Monad Parser where
  pure := fun a ts => .done a ts
  bind := andThen

/- Stop at the current token. -/
def fail
    (fault : Fault) : Parser α :=
  fun ts => .stopped fault ts

/- The kind of the current token; none at the end. -/
def peek : Parser (Option TokenKind) :=
  fun ts => .done (ts.head?.map Token.kind) ts

/-
  Pass the current token if `read` makes something of its
  kind, and give that with the span of the token.  Otherwise
  stop for want of `what`.
-/
def accept
    (what : Expectation)
    (read : TokenKind → Option β) : Parser (β × Span) :=
  fun ts =>
    match ts with
    | [] => .stopped (.expected what) []
    | t :: rest =>
        match read t.kind with
        | some b => .done (b, t.span) rest
        | none => .stopped (.expected what) (t :: rest)

/-
  Repeat a step that gives an item or the last part, with
  the items found so far in reverse.  The tokens in `fuel`
  bound the number of items.
-/
def collectWithin
    (missing : Expectation)
    (step : Parser (α ⊕ β))
    (found : List α) :
    List Token → Parser (List α × β)
  | fuel, ts =>
      match step ts with
      | .stopped fault rest => .stopped fault rest
      | .done (.inr last) rest =>
          .done (found.reverse, last) rest
      | .done (.inl item) rest =>
          match fuel with
          | [] => .stopped (.expected missing) rest
          | _ :: fuel =>
              collectWithin missing step
                (item :: found) fuel rest

/-
  Repeat a step that gives an item or the last part, until
  it gives the last part.  Every item takes at least one
  token, so there are no more items than tokens; a step
  beyond that stops for want of `missing`.
-/
def collect
    (missing : Expectation)
    (step : Parser (α ⊕ β)) : Parser (List α × β) :=
  fun ts => collectWithin missing step [] ts ts

end Parser

end FeSyntax
