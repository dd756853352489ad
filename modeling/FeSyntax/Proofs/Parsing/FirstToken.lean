import FeSyntax.Proofs.Parsing.Reads
import FeSyntax.Proofs.Syntax.KeywordWins

/-
  This file proves what the first token of a spelling says
  about the tree that is spelled.  The first token of a path
  is the word that the path begins with, so whether the
  keyword wins can be seen there.

  Key theorems include:
    * `Path.beginsWith_iff`
    * `Path.isTypePath_iff`
    * `Path.isPatternPath_iff`
    * `Path.isExpressionPath_iff`
    * `Ty.beginsWith_iff`
    * `Expression.beginsWith_let_iff`
    * `Definition.startsWith`
-/

namespace FeSyntax

variable {ts rest : List Token}

------------------------------------------------------------
-- Names And Paths
------------------------------------------------------------

/- A word that is a literal is a truth value. -/
theorem TokenKind.exists_bool_of_literal?
    {word : String}
    (hLiteral : (ofWord word).literal?.isSome) :
    ∃ b, ofWord word = .bool b := by
  rcases Option.isSome_iff_exists.mp hLiteral with
    ⟨value, hValue⟩
  rw [literal?_eq_some] at hValue
  have hWord := congrArg word? hValue
  rw [word?_ofWord] at hWord
  cases value with
  | bool b => exact ⟨b, hValue⟩
  | number n suffix => cases hWord
  | string s => cases hWord

theorem Identifier.startsWith
    (i : Identifier) :
    StartsWith (· = .ofWord i.name) i.spellings :=
  .written rfl

/- Where an identifier is read, its word comes next. -/
theorem Identifier.nextKind
    {i : Identifier}
    (hReads : Reads ts i.spellings rest) :
    nextKind ts = some (.ofWord i.name) := by
  rcases hReads.exists_nextKind i.startsWith with
    ⟨_, hNext, rfl⟩
  exact hNext

/- Whether a name is a keyword can be seen at its token. -/
theorem Identifier.nextKind_keyword_iff
    {i : Identifier}
    {k : Keyword}
    (hReads : Reads ts i.spellings rest) :
    FeSyntax.nextKind ts = some (.keyword k) ↔
      i.name = k.spelling := by
  rw [nextKind hReads, ← TokenKind.ofWord_keyword,
    Option.some.injEq, TokenKind.ofWord_inj]

namespace Path

/- A path starts with the word that it begins with. -/
theorem startsWith
    {p : Path}
    (hSegments : p.segments ≠ []) :
    StartsWith
      (fun kind =>
        ∃ word, p.BeginsWith word ∧ kind = .ofWord word)
      p.spellings := by
  rcases p with ⟨segments, span⟩
  cases segments with
  | nil => exact absurd rfl hSegments
  | cons first more =>
      refine first.startsWith.mul.mono ?_
      rintro kind rfl
      exact ⟨first.name, rfl, rfl⟩

/- The first token of a path is a word. -/
theorem exists_word
    {p : Path}
    (hReads : Reads ts p.spellings rest)
    (hSegments : p.segments ≠ []) :
    ∃ kind, nextKind ts = some kind ∧
      kind.word?.isSome := by
  rcases hReads.exists_nextKind (startsWith hSegments) with
    ⟨kind, hNext, word, -, rfl⟩
  exact ⟨_, hNext, by simp⟩

/- The first token of a path is no punctuation mark. -/
theorem startsWith_noMark
    {p : Path}
    (hSegments : p.segments ≠ []) :
    StartsWith (fun kind => ∀ mark, kind ≠ .punct mark)
      p.spellings := by
  refine (startsWith hSegments).mono ?_
  intro kind hPath mark
  rcases hPath with ⟨word, -, rfl⟩
  exact TokenKind.ofWord_ne_punct

/- A path begins with the word that comes next. -/
theorem beginsWith_iff
    {p : Path}
    {word : String}
    (hReads : Reads ts p.spellings rest)
    (hSegments : p.segments ≠ []) :
    p.BeginsWith word ↔
      nextKind ts = some (.ofWord word) := by
  rcases hReads.exists_nextKind (startsWith hSegments) with
    ⟨_, hNext, first, hFirst, rfl⟩
  rw [hNext, Option.some.injEq, TokenKind.ofWord_inj]
  constructor
  · intro hWord
    exact Option.some.inj (hFirst.symm.trans hWord)
  · rintro rfl
    exact hFirst

theorem beginsWith_keyword_iff
    {p : Path}
    {k : Keyword}
    (hReads : Reads ts p.spellings rest)
    (hSegments : p.segments ≠ []) :
    p.BeginsWith k.spelling ↔
      nextKind ts = some (.keyword k) := by
  rw [beginsWith_iff hReads hSegments,
    TokenKind.ofWord_keyword]

theorem beginsWith_bool_iff
    {p : Path}
    {b : Bool}
    (hReads : Reads ts p.spellings rest)
    (hSegments : p.segments ≠ []) :
    p.BeginsWith (TokenKind.boolSpelling b) ↔
      nextKind ts = some (.bool b) := by
  rw [beginsWith_iff hReads hSegments,
    TokenKind.ofWord_bool]

theorem beginsWith_primitive_iff
    {p : Path}
    {kind : Primitive}
    (hReads : Reads ts p.spellings rest)
    (hSegments : p.segments ≠ []) :
    p.BeginsWith kind.spelling ↔
      nextKind ts = some (.primitive kind) := by
  rw [beginsWith_iff hReads hSegments,
    TokenKind.ofWord_primitive]

/- A path is a type if no primitive type comes next. -/
theorem isTypePath_iff
    {p : Path}
    (hReads : Reads ts p.spellings rest)
    (hSegments : p.segments ≠ []) :
    p.IsTypePath ↔
      ∀ kind, nextKind ts ≠ some (.primitive kind) := by
  simp only [ne_eq,
    ← beginsWith_primitive_iff hReads hSegments]
  constructor
  · intro hPath
    exact hPath.not_primitive
  · intro hPrimitive
    exact ⟨hSegments, hPrimitive⟩

/-
  It is an expression unless a boolean or a `match` does.
-/
theorem isExpressionPath_iff
    {p : Path}
    (hReads : Reads ts p.spellings rest)
    (hSegments : p.segments ≠ []) :
    p.IsExpressionPath ↔
      (∀ b, nextKind ts ≠ some (.bool b)) ∧
        nextKind ts ≠ some (.keyword .matchKw) := by
  simp only [ne_eq, ← beginsWith_bool_iff hReads hSegments,
    ← beginsWith_keyword_iff hReads hSegments]
  constructor
  · intro hPath
    rcases hPath with ⟨-, hBool, hMatch⟩
    exact ⟨hBool, hMatch⟩
  · intro hPath
    rcases hPath with ⟨hBool, hMatch⟩
    exact ⟨hSegments, hBool, hMatch⟩

/- It is a pattern unless a boolean or a wildcard does. -/
theorem isPatternPath_iff
    {p : Path}
    (hReads : Reads ts p.spellings rest)
    (hSegments : p.segments ≠ []) :
    p.IsPatternPath ↔
      (∀ b, nextKind ts ≠ some (.bool b)) ∧
        nextKind ts ≠ some (.keyword .underscore) := by
  simp only [ne_eq, ← beginsWith_bool_iff hReads hSegments,
    ← beginsWith_keyword_iff hReads hSegments]
  constructor
  · intro hPath
    rcases hPath with ⟨-, hBool, hWildcard⟩
    exact ⟨hBool, hWildcard⟩
  · intro hPath
    rcases hPath with ⟨hBool, hWildcard⟩
    exact ⟨hSegments, hBool, hWildcard⟩

end Path

------------------------------------------------------------
-- Types
------------------------------------------------------------

/-
  Whether a type expression is a path that begins with a
  keyword can be seen at its first token.
-/
theorem Ty.beginsWith_iff
    {t : Ty}
    {k : Keyword}
    (hReads : Reads ts t.spellings rest)
    (hKeyword : t.KeywordWins) :
    t.BeginsWith k.spelling ↔
      nextKind ts = some (.keyword k) := by
  cases hKeyword with
  | path hPath =>
      rw [spellings] at hReads
      rw [BeginsWith]
      exact Path.beginsWith_keyword_iff hReads
        hPath.segments_ne_nil
  | reference hMut hInner =>
      rw [spellings, mul_assoc] at hReads
      have hNext := hReads.nextKind_eq
      simp [BeginsWith, hNext]
  | tuple hElements =>
      rw [spellings, mul_assoc] at hReads
      have hNext := hReads.nextKind_eq
      simp [BeginsWith, hNext]
  | primitive =>
      rw [spellings] at hReads
      rcases reads_written_iff.mp hReads with
        ⟨token, rfl, hKind⟩
      simp [BeginsWith, hKind]

/- No type expression starts with a closing parenthesis. -/
theorem Ty.startsWith
    {t : Ty}
    (hKeyword : t.KeywordWins) :
    StartsWith (· ≠ .punct .rightParen) t.spellings := by
  cases hKeyword with
  | path hPath =>
      rw [spellings]
      exact
        (Path.startsWith_noMark hPath.segments_ne_nil).mono
          fun kind hKind => hKind .rightParen
  | reference hMut hInner =>
      rw [spellings, mul_assoc]
      exact (StartsWith.written (by decide)).mul
  | tuple hElements =>
      rw [spellings, mul_assoc]
      exact (StartsWith.written (by decide)).mul
  | primitive =>
      rw [spellings]
      exact .written (by simp)

------------------------------------------------------------
-- Patterns And Expressions
------------------------------------------------------------

/- The token of a literal is no punctuation mark. -/
theorem LiteralValue.kind_ne_punct
    {value : LiteralValue}
    {mark : Punct} :
    value.kind ≠ .punct mark := by
  cases value <;> simp [kind]

/- No pattern starts with a punctuation mark. -/
theorem Pattern.startsWith
    {p : Pattern}
    (hKeyword : p.KeywordWins) :
    StartsWith (fun kind => ∀ mark, kind ≠ .punct mark)
      p.spellings := by
  cases hKeyword with
  | identifier hName =>
      rw [spellings]
      exact .written fun mark => TokenKind.ofWord_ne_punct
  | literal =>
      rw [spellings]
      exact .written fun mark => LiteralValue.kind_ne_punct
  | wildcard =>
      rw [spellings]
      exact .written (by simp)
  | tupleStruct hPath hElements =>
      rw [spellings, mul_assoc, mul_assoc]
      exact
        (Path.startsWith_noMark hPath.segments_ne_nil).mul

/- A block is the only expression that a mark can start. -/
theorem Expression.startsWith
    {e : Expression}
    (hKeyword : e.KeywordWins) :
    StartsWith
      (fun kind =>
        kind = .punct .leftBrace ∨
          ∀ mark, kind ≠ .punct mark)
      e.spellings := by
  cases hKeyword with
  | literal =>
      rw [spellings]
      exact .written
        (.inr fun mark => LiteralValue.kind_ne_punct)
  | path hPath =>
      rw [spellings]
      exact
        (Path.startsWith_noMark hPath.segments_ne_nil).mono
          fun kind => .inr
  | @block b hBlock =>
      rcases b with ⟨statements, tail, span⟩
      rw [spellings, Block.spellings, mul_assoc, mul_assoc]
      exact (StartsWith.written (.inl rfl)).mul
  | @matching m hMatch =>
      rcases m with ⟨value, arms, span⟩
      simp only [spellings, Match.spellings, mul_assoc]
      exact (StartsWith.written (.inr (by simp))).mul

/- An expression is not mistaken for the end of a block. -/
theorem Expression.nextKind_ne_rightBrace
    {e : Expression}
    (hReads : Reads ts e.spellings rest)
    (hKeyword : e.KeywordWins) :
    nextKind ts ≠ some (.punct .rightBrace) :=
  hReads.nextKind_ne (startsWith hKeyword) (by simp)

/- No arm starts with a punctuation mark. -/
theorem MatchArm.startsWith
    {a : MatchArm}
    (hKeyword : a.KeywordWins) :
    StartsWith (fun kind => ∀ mark, kind ≠ .punct mark)
      a.spellings := by
  cases hKeyword with
  | mk hPattern hValue =>
      rw [spellings, mul_assoc, mul_assoc]
      exact (Pattern.startsWith hPattern).mul

/- Every statement has a first token. -/
theorem Statement.startsWith
    {s : Statement}
    (hKeyword : s.KeywordWins) :
    StartsWith (fun _ => True) s.spellings := by
  cases hKeyword with
  | @binding b hBinding =>
      rcases b with ⟨isMut, name, ty, value, span⟩
      simp only [spellings, LetBinding.spellings, mul_assoc]
      exact (StartsWith.written trivial).mul
  | expression hValue hLet =>
      rw [spellings]
      exact
        ((Expression.startsWith hValue).mono
          fun _ _ => trivial).mul

/- A block starts with its brace. -/
theorem Block.nextKind
    {b : Block}
    (hReads : Reads ts b.spellings rest) :
    FeSyntax.nextKind ts = some (.punct .leftBrace) := by
  rcases b with ⟨statements, tail, span⟩
  simp only [spellings, mul_assoc] at hReads
  exact hReads.nextKind_eq

/- A match starts with its keyword. -/
theorem Match.nextKind
    {m : Match}
    (hReads : Reads ts m.spellings rest) :
    FeSyntax.nextKind ts = some (.keyword .matchKw) := by
  rcases m with ⟨value, arms, span⟩
  simp only [spellings, mul_assoc] at hReads
  exact hReads.nextKind_eq

/-
  Whether an expression is a path that begins with `let` can
  be seen at its first token.
-/
theorem Expression.beginsWith_let_iff
    {e : Expression}
    (hReads : Reads ts e.spellings rest)
    (hKeyword : e.KeywordWins) :
    e.BeginsWith Keyword.letKw.spelling ↔
      nextKind ts = some (.keyword .letKw) := by
  cases hKeyword with
  | @literal l =>
      rw [spellings] at hReads
      rcases reads_written_iff.mp hReads with
        ⟨token, rfl, hKind⟩
      cases hValue : l.value <;>
        simp [BeginsWith, hKind, hValue, LiteralValue.kind]
  | path hPath =>
      rw [spellings] at hReads
      rw [BeginsWith]
      exact Path.beginsWith_keyword_iff hReads
        hPath.segments_ne_nil
  | block hBlock =>
      rw [spellings] at hReads
      simp [BeginsWith, Block.nextKind hReads]
  | matching hMatch =>
      rw [spellings] at hReads
      simp [BeginsWith, Match.nextKind hReads]

------------------------------------------------------------
-- Definitions
------------------------------------------------------------

/- No parameter starts with a punctuation mark. -/
theorem Param.startsWith
    (p : Param) :
    StartsWith (fun kind => ∀ mark, kind ≠ .punct mark)
      p.spellings := by
  rw [spellings, mul_assoc]
  exact
    (StartsWith.written fun _ =>
      TokenKind.ofWord_ne_punct).mul

/- No field starts with a punctuation mark. -/
theorem Field.startsWith
    (f : Field) :
    StartsWith (fun kind => ∀ mark, kind ≠ .punct mark)
      f.spellings := by
  rw [spellings, mul_assoc, mul_assoc]
  refine .present (.written (by simp)) ?_
  exact
    (StartsWith.written fun _ =>
      TokenKind.ofWord_ne_punct).mul

/- No function starts with a punctuation mark. -/
theorem Function.startsWith
    (f : Function) :
    StartsWith (fun kind => ∀ mark, kind ≠ .punct mark)
      f.spellings := by
  simp only [spellings, mul_assoc]
  exact .present (.written (by simp))
    (StartsWith.written (by simp)).mul

/- No definition starts with a punctuation mark. -/
theorem Definition.startsWith
    (d : Definition) :
    StartsWith (fun kind => ∀ mark, kind ≠ .punct mark)
      d.spellings := by
  cases d with
  | module m =>
      rcases m with ⟨name, definitions, span⟩
      simp only [spellings, Module.spellings, mul_assoc]
      exact (StartsWith.written (by simp)).mul
  | function f =>
      rw [spellings]
      exact f.startsWith
  | struct s =>
      simp only [spellings, Struct.spellings, mul_assoc]
      exact .present (.written (by simp))
        (StartsWith.written (by simp)).mul
  | constant c =>
      simp only [spellings, Constant.spellings, mul_assoc]
      exact .present (.written (by simp))
        (StartsWith.written (by simp)).mul
  | typeAlias a =>
      simp only [spellings, TypeAlias.spellings, mul_assoc]
      exact .present (.written (by simp))
        (StartsWith.written (by simp)).mul
  | trait t =>
      simp only [spellings, Trait.spellings, mul_assoc]
      exact .present (.written (by simp))
        (StartsWith.written (by simp)).mul
  | impl i =>
      simp only [spellings, Impl.spellings, mul_assoc]
      exact (StartsWith.written (by simp)).mul

end FeSyntax
