import FeSyntax.Parse.Definition
import FeSyntax.Proofs.Parsing.Outcome

/-
  This file says which way each parser goes that looks at
  the kind of the next token first.  Every lemma lists all
  ways in which such a parser can be done, each with the
  kinds that lead there.

  Key theorems include:
    * `Parser.tyOf_eq_done`
    * `Parser.patternOf_eq_done`
    * `Parser.expressionOf_eq_done`
    * `Parser.blockPart_eq_done`
    * `Parser.definitionOf_eq_done`
    * `Parser.definitions_eq_done`
    * `Parser.rest_of_definitions`
-/

namespace FeSyntax

namespace Parser

variable {ts rest : List Token}

/-
  A parser that looks at the next token goes on with its
  kind.
-/
theorem peek_bind
    {α : Type}
    {f : Option TokenKind → Parser α} :
    (peek >>= f) ts = f (nextKind ts) ts :=
  rfl

------------------------------------------------------------
-- Types And Patterns
------------------------------------------------------------

/-
  A type is primitive, a reference or a tuple by its next
  token, and a path otherwise.
-/
theorem tyOf_eq_done
    {inner : Parser Ty}
    {t : Ty} :
    tyOf inner ts = .done t rest ↔
      (∃ kind, nextKind ts = some (.primitive kind) ∧
        primitiveTy ts = .done t rest) ∨
      (nextKind ts = some (.punct .ampersand) ∧
        referenceTy inner ts = .done t rest) ∨
      (nextKind ts = some (.punct .leftParen) ∧
        tupleTy inner ts = .done t rest) ∨
      ∃ kind, nextKind ts = some kind ∧
        (∀ primitive, kind ≠ .primitive primitive) ∧
        kind.word?.isSome ∧
        ∃ p, path ts = .done p rest ∧ .path p = t := by
  rw [tyOf, peek_bind]
  cases nextKind ts with
  | none => simp [fail_ne_done]
  | some kind =>
      cases kind with
      | punct mark =>
          cases mark <;>
            simp [TokenKind.word?, fail_ne_done]
      | primitive kind => simp
      | _ =>
          simp [TokenKind.word?, fail_ne_done, map_eq_done]

/-
  Behind the path of a pattern stands a parenthesis, or the
  path has to be one name.
-/
theorem namedPattern_eq_done
    {inner : Parser Pattern}
    {x : Pattern} :
    namedPattern inner ts = .done x rest ↔
      ∃ p mid, path ts = .done p mid ∧
        ((nextKind mid ≠ some (.punct .leftParen) ∧
          mid = rest ∧
          ∃ name, p.segments = [name] ∧
            .identifier name = x) ∨
        ∃ start mid',
          punct .leftParen mid = .done start mid' ∧
          ∃ elements stop,
            commaList .rightParen inner mid' =
              .done (elements, stop) rest ∧
            .tupleStruct p elements (p.span.through stop) =
              x) := by
  rw [namedPattern, bind_eq_done]
  refine exists_congr fun p => exists_congr fun mid =>
    and_congr_right fun _ => ?_
  rw [bind_eq_done]
  constructor
  · intro hRun
    rcases hRun with ⟨o, mid', hOpen, hParse⟩
    rcases punct?_eq_done.mp hOpen with
      ⟨hNext, rfl, rfl⟩ | ⟨start, hStart, rfl⟩
    · rcases hSegments : p.segments with _ | ⟨name, _ | _⟩
      · simp only [hSegments] at hParse
        exact absurd hParse fail_ne_done
      · simp only [hSegments, pure_eq_done] at hParse
        exact .inl ⟨hNext, hParse.2, name, rfl, hParse.1⟩
      · simp only [hSegments] at hParse
        exact absurd hParse fail_ne_done
    · simp only [bind_eq_done, pure_eq_done,
        Prod.exists] at hParse
      rcases hParse with
        ⟨elements, stop, _, hElements, hValue, rfl⟩
      exact .inr
        ⟨start, mid', hStart, elements, stop, hElements,
          hValue⟩
  · intro hRun
    rcases hRun with
      ⟨hNext, rfl, name, hSegments, rfl⟩ |
      ⟨start, mid', hStart, elements, stop, hElements, rfl⟩
    · refine
        ⟨none, mid,
          punct?_eq_done.mpr (.inl ⟨hNext, rfl, rfl⟩), ?_⟩
      simp only [hSegments]
      exact pure_eq_done.mpr ⟨rfl, rfl⟩
    · refine
        ⟨some start, mid',
          punct?_eq_done.mpr (.inr ⟨start, hStart, rfl⟩),
          ?_⟩
      exact bind_eq_done.mpr
        ⟨(elements, stop), rest, hElements,
          pure_eq_done.mpr ⟨rfl, rfl⟩⟩

/-
  A pattern is a wildcard or a literal by its next token,
  and starts with a name otherwise.
-/
theorem patternOf_eq_done
    {inner : Parser Pattern}
    {x : Pattern} :
    patternOf inner ts = .done x rest ↔
      (nextKind ts = some (.keyword .underscore) ∧
        wildcardPattern ts = .done x rest) ∨
      (∃ kind, nextKind ts = some kind ∧
        kind.literal?.isSome ∧
        ∃ l, literal .pattern ts = .done l rest ∧
          .literal l = x) ∨
      ∃ kind, nextKind ts = some kind ∧
        kind ≠ .keyword .underscore ∧
        ¬ kind.literal?.isSome ∧
        kind.word?.isSome ∧
        namedPattern inner ts = .done x rest := by
  rw [patternOf, peek_bind]
  cases nextKind ts with
  | none => simp [fail_ne_done]
  | some kind =>
      cases kind with
      | keyword k =>
          cases k <;>
            simp [TokenKind.word?, TokenKind.literal?]
      | _ =>
          simp [TokenKind.word?, TokenKind.literal?,
            fail_ne_done, map_eq_done]

------------------------------------------------------------
-- Expressions And Blocks
------------------------------------------------------------

/-
  An expression is a block, a match or a literal by its next
  token, and a path otherwise.
-/
theorem expressionOf_eq_done
    {inner : Parser Expression}
    {block : Parser Block}
    {pattern : Parser Pattern}
    {e : Expression} :
    expressionOf inner block pattern ts = .done e rest ↔
      (nextKind ts = some (.punct .leftBrace) ∧
        ∃ b, block ts = .done b rest ∧ .block b = e) ∨
      (nextKind ts = some (.keyword .matchKw) ∧
        ∃ m, matchOf inner pattern ts = .done m rest ∧
          .matching m = e) ∨
      (∃ kind, nextKind ts = some kind ∧
        kind.literal?.isSome ∧
        ∃ l, literal .expression ts = .done l rest ∧
          .literal l = e) ∨
      ∃ kind, nextKind ts = some kind ∧
        kind ≠ .keyword .matchKw ∧
        ¬ kind.literal?.isSome ∧
        kind.word?.isSome ∧
        ∃ p, path ts = .done p rest ∧ .path p = e := by
  rw [expressionOf, peek_bind]
  cases nextKind ts with
  | none => simp [fail_ne_done]
  | some kind =>
      cases kind with
      | keyword k =>
          cases k <;>
            simp [TokenKind.word?, TokenKind.literal?,
              map_eq_done]
      | punct mark =>
          cases mark <;>
            simp [TokenKind.word?, TokenKind.literal?,
              fail_ne_done, map_eq_done]
      | _ =>
          simp [TokenKind.word?, TokenKind.literal?,
            fail_ne_done, map_eq_done]

/-
  An expression in a block is a statement if a semicolon
  follows, and the last one if a brace does.
-/
theorem expressionPart_eq_done
    {inner : Parser Expression}
    {part : Statement ⊕ BlockEnd} :
    expressionPart inner ts = .done part rest ↔
      ∃ value mid, inner ts = .done value mid ∧
        ((∃ stop, punct .semicolon mid = .done stop rest ∧
          .inl
              (.expression value
                (value.span.through stop)) =
            part) ∨
        (nextKind mid ≠ some (.punct .semicolon) ∧
          ∃ stop, punct .rightBrace mid = .done stop rest ∧
            .inr (some value, stop) = part)) := by
  rw [expressionPart, bind_eq_done]
  refine exists_congr fun value => exists_congr fun mid =>
    and_congr_right fun _ => ?_
  rw [bind_eq_done]
  constructor
  · intro hRun
    rcases hRun with ⟨semicolon, mid', hSemicolon, hParse⟩
    rcases punct?_eq_done.mp hSemicolon with
      ⟨hNext, rfl, rfl⟩ | ⟨stop, hStop, rfl⟩
    · rcases bind_eq_done.mp hParse with
        ⟨brace, _, hBrace, hParse⟩
      rcases punct?_eq_done.mp hBrace with
        ⟨-, rfl, rfl⟩ | ⟨stop, hStop, rfl⟩
      · exact absurd hParse fail_ne_done
      · rcases pure_eq_done.mp hParse with ⟨rfl, rfl⟩
        exact .inr ⟨hNext, stop, hStop, rfl⟩
    · rcases pure_eq_done.mp hParse with ⟨rfl, rfl⟩
      exact .inl ⟨stop, hStop, rfl⟩
  · intro hRun
    rcases hRun with
      ⟨stop, hStop, rfl⟩ | ⟨hNext, stop, hStop, rfl⟩
    · exact
        ⟨some stop, rest,
          punct?_eq_done.mpr (.inr ⟨stop, hStop, rfl⟩),
          pure_eq_done.mpr ⟨rfl, rfl⟩⟩
    · refine
        ⟨none, mid,
          punct?_eq_done.mpr (.inl ⟨hNext, rfl, rfl⟩), ?_⟩
      exact bind_eq_done.mpr
        ⟨some stop, rest,
          punct?_eq_done.mpr (.inr ⟨stop, hStop, rfl⟩),
          pure_eq_done.mpr ⟨rfl, rfl⟩⟩

/-
  A part of a block is its end, a binding or an expression,
  by the next token.
-/
theorem blockPart_eq_done
    {inner : Parser Expression}
    {ty : Parser Ty}
    {part : Statement ⊕ BlockEnd} :
    blockPart inner ty ts = .done part rest ↔
      (∃ stop, punct .rightBrace ts = .done stop rest ∧
        .inr (none, stop) = part) ∨
      (nextKind ts = some (.keyword .letKw) ∧
        ∃ b, letBinding inner ty ts = .done b rest ∧
          .inl (.binding b) = part) ∨
      (nextKind ts ≠ some (.punct .rightBrace) ∧
        nextKind ts ≠ some (.keyword .letKw) ∧
        expressionPart inner ts = .done part rest) := by
  by_cases hClose : nextKind ts = some (.punct .rightBrace)
  · rw [blockPart, peek_bind]
    simp [hClose, bind_eq_done, pure_eq_done]
  by_cases hLet : nextKind ts = some (.keyword .letKw)
  · rw [blockPart, peek_bind]
    simp only [hLet, map_eq_done, Function.comp_apply]
    constructor
    · intro hRun
      rcases hRun with ⟨b, hParse, rfl⟩
      exact .inr (.inl ⟨trivial, b, hParse, rfl⟩)
    · intro hRun
      rcases hRun with
        ⟨stop, hStop, -⟩ | ⟨-, b, hParse, rfl⟩ |
        ⟨-, hNot, -⟩
      · exact absurd (nextKind_of_punct hStop) hClose
      · exact ⟨b, hParse, rfl⟩
      · exact absurd rfl hNot
  · have hElse :
        blockPart inner ty ts =
          expressionPart inner ts := by
      rw [blockPart, peek_bind]
      refine congrFun ?_ ts
      split
      · exact absurd ‹_› hClose
      · exact absurd ‹_› hLet
      · rfl
    rw [hElse]
    constructor
    · exact fun hParse => .inr (.inr ⟨hClose, hLet, hParse⟩)
    · intro hRun
      rcases hRun with
        ⟨stop, hStop, -⟩ | ⟨hYes, -⟩ | ⟨-, -, hParse⟩
      · exact absurd (nextKind_of_punct hStop) hClose
      · exact absurd hYes hLet
      · exact hParse

------------------------------------------------------------
-- Definitions
------------------------------------------------------------

/-
  The body of a struct is a semicolon, or fields between
  braces.
-/
theorem structBody_eq_done
    {n : Nat}
    {body : Option (List Field) × Span} :
    structBody n ts = .done body rest ↔
      (∃ stop, punct .semicolon ts = .done stop rest ∧
        (none, stop) = body) ∨
      ∃ start mid, punct .leftBrace ts = .done start mid ∧
        ∃ fields stop,
          commaList .rightBrace (field n) mid =
            .done (fields, stop) rest ∧
          (some fields, stop) = body := by
  by_cases hSemicolon :
      nextKind ts = some (.punct .semicolon)
  · rw [structBody, peek_bind]
    simp only [hSemicolon, bind_eq_done, pure_eq_done]
    constructor
    · intro hRun
      rcases hRun with ⟨stop, _, hStop, hBody, rfl⟩
      exact .inl ⟨stop, hStop, hBody⟩
    · intro hRun
      rcases hRun with
        ⟨stop, hStop, hBody⟩ | ⟨start, mid, hStart, -⟩
      · exact ⟨stop, rest, hStop, hBody, rfl⟩
      · rw [nextKind_of_punct hStart] at hSemicolon
        cases hSemicolon
  by_cases hBrace : nextKind ts = some (.punct .leftBrace)
  · rw [structBody, peek_bind]
    simp only [hBrace, bind_eq_done, pure_eq_done,
      Prod.exists]
    constructor
    · intro hRun
      rcases hRun with
        ⟨start, mid, hStart, fields, stop, _, hFields,
         hBody, rfl⟩
      exact .inr
        ⟨start, mid, hStart, fields, stop, hFields, hBody⟩
    · intro hRun
      rcases hRun with
        ⟨stop, hStop, -⟩ |
        ⟨start, mid, hStart, fields, stop, hFields, hBody⟩
      · exact absurd (nextKind_of_punct hStop) hSemicolon
      · exact
          ⟨start, mid, hStart, fields, stop, rest, hFields,
            hBody, rfl⟩
  · have hElse :
        structBody n ts =
          fail (.expected .structBody) ts := by
      rw [structBody, peek_bind]
      refine congrFun ?_ ts
      split
      · exact absurd ‹_› hSemicolon
      · exact absurd ‹_› hBrace
      · rfl
    rw [hElse]
    constructor
    · exact fun hParse => absurd hParse fail_ne_done
    · intro hRun
      rcases hRun with
        ⟨stop, hStop, -⟩ | ⟨start, mid, hStart, -⟩
      · exact absurd (nextKind_of_punct hStop) hSemicolon
      · exact absurd (nextKind_of_punct hStart) hBrace

/-
  A definition is settled by its keyword, and some kinds of
  it must not be public.
-/
theorem definitionOf_eq_done
    {n : Nat}
    {inner : Parser Definition}
    {d : Definition} :
    definitionOf n inner ts = .done d rest ↔
      ∃ v mid, keyword? .pubKw ts = .done v mid ∧
        ((v = none ∧
          nextKind mid = some (.keyword .modKw) ∧
          ∃ m, moduleOf inner mid = .done m rest ∧
            .module m = d) ∨
        (v = none ∧
          nextKind mid = some (.keyword .implKw) ∧
          ∃ i, impl n mid = .done i rest ∧ .impl i = d) ∨
        (nextKind mid = some (.keyword .fnKw) ∧
          ∃ f, function n v mid = .done f rest ∧
            .function f = d) ∨
        (nextKind mid = some (.keyword .traitKw) ∧
          ∃ t, trait n v mid = .done t rest ∧
            .trait t = d) ∨
        (nextKind mid = some (.keyword .structKw) ∧
          ∃ s, struct n v mid = .done s rest ∧
            .struct s = d) ∨
        (nextKind mid = some (.keyword .constKw) ∧
          ∃ c, constant n v mid = .done c rest ∧
            .constant c = d) ∨
        (nextKind mid = some (.keyword .typeKw) ∧
          ∃ a, typeAlias n v mid = .done a rest ∧
            .typeAlias a = d)) := by
  rw [definitionOf, bind_eq_done]
  refine exists_congr fun v => exists_congr fun mid =>
    and_congr_right fun _ => ?_
  rw [peek_bind]
  cases nextKind mid with
  | none => cases v <;> simp [fail_ne_done]
  | some kind =>
      cases kind with
      | keyword k =>
          cases k <;> cases v <;>
            simp [fail_ne_done, map_eq_done]
      | _ => cases v <;> simp [fail_ne_done]

/- A definition of a module; the text must not end. -/
def moduleItem
    (inner : Parser Definition) : Parser Definition := do
  match ← peek with
  | some _ => inner
  | none => fail (.expected (.punct .rightBrace))

/-
  A definition inside a module needs a token to start with.
-/
theorem moduleItem_eq_done
    {inner : Parser Definition}
    {d : Definition} :
    moduleItem inner ts = .done d rest ↔
      ts ≠ [] ∧ inner ts = .done d rest := by
  rw [moduleItem, peek_bind]
  cases ts with
  | nil => simp [nextKind, fail_ne_done]
  | cons t ts => simp

------------------------------------------------------------
-- Files
------------------------------------------------------------

/- A definition, or the end of the text. -/
def definitionStep
    (levels : Nat) : Parser (Definition ⊕ Unit) := do
  match ← peek with
  | some _ => .inl <$> definition levels
  | none => pure (.inr ())

/-
  A file goes on with a definition until there is no token
  left.
-/
theorem definitionStep_eq_done
    {n : Nat}
    {part : Definition ⊕ Unit} :
    definitionStep n ts = .done part rest ↔
      (ts ≠ [] ∧
        ∃ d, definition n ts = .done d rest ∧
          .inl d = part) ∨
      (ts = [] ∧ rest = [] ∧ .inr () = part) := by
  rw [definitionStep, peek_bind]
  cases ts with
  | nil =>
      simp [nextKind, pure_eq_done, and_comm, eq_comm]
  | cons t ts => simp [map_eq_done]

/- The definitions of a text are read by such steps. -/
theorem definitions_eq_done
    {n : Nat}
    {ds : List Definition} :
    definitions n ts = .done ds rest ↔
      ds.length ≤ ts.length ∧
        Steps (definitionStep n) ts ds () rest := by
  have hRun :
      definitions n =
        collect .definition (definitionStep n) >>=
          fun parts => pure parts.1 :=
    rfl
  rw [hRun, bind_eq_done]
  constructor
  · intro hRun
    rcases hRun with ⟨⟨ds', _⟩, mid, hParts, hPure⟩
    rcases pure_eq_done.mp hPure with ⟨rfl, rfl⟩
    exact collect_eq_done.mp hParts
  · intro hSteps
    exact
      ⟨(ds, ()), rest, collect_eq_done.mpr hSteps,
        pure_eq_done.mpr ⟨rfl, rfl⟩⟩

/- The definitions of a file go up to the end. -/
theorem rest_of_definitions
    {n : Nat}
    {ds : List Definition}
    (hRun : definitions n ts = .done ds rest) :
    rest = [] := by
  rcases (definitions_eq_done.mp hRun).2.exists_last with
    ⟨mid, hLast⟩
  rcases definitionStep_eq_done.mp hLast with
    ⟨-, d, -, hPart⟩ | ⟨-, hRest, -⟩
  · cases hPart
  · exact hRest

end Parser

end FeSyntax
