import FeSyntax.Ast.Definition
import FeSyntax.Token.Kind
import Mathlib.Computability.Language

/-
  This file defines how a syntax tree is written: the set of
  all lists of token kinds that the grammar allows for it.
  The only freedom is the semicolon behind a match arm.
  Whether a parser would read a spelling back as the same
  tree is a different question.

  Key definitions include:
    * `TokenKind.written`
    * `Spelling.separated`
    * `Identifier.spellings`
    * `Path.spellings`
    * `Ty.spellings`
    * `Pattern.spellings`
    * `Expression.spellings`
    * `Definition.spellings`
    * `SourceFile.spellings`
-/

namespace FeSyntax

------------------------------------------------------------
-- Tokens
------------------------------------------------------------

/- One token of a kind. -/
def TokenKind.written
    (kind : TokenKind) : Language TokenKind :=
  {[kind]}

theorem TokenKind.mem_written_iff
    {kind : TokenKind}
    {w : List TokenKind} :
    w ∈ kind.written ↔ w = [kind] :=
  Iff.rfl

/-
  In front of other words stands just the token that is
  written.
-/
theorem TokenKind.cons_mem_written_mul_iff
    {kind first : TokenKind}
    {w : List TokenKind}
    {l : Language TokenKind} :
    first :: w ∈ kind.written * l ↔
      first = kind ∧ w ∈ l := by
  rw [Language.mem_mul]
  constructor
  · intro hMem
    rcases hMem with
      ⟨before, hBefore, behind, hBehind, hSplit⟩
    rw [mem_written_iff.mp hBefore, List.singleton_append,
      List.cons.injEq] at hSplit
    rcases hSplit with ⟨rfl, rfl⟩
    exact ⟨rfl, hBehind⟩
  · intro hMem
    rcases hMem with ⟨rfl, hMem⟩
    exact ⟨[first], rfl, w, hMem, rfl⟩

/- A keyword. -/
def Keyword.written
    (word : Keyword) : Language TokenKind :=
  TokenKind.written (.keyword word)

/- A punctuation mark. -/
def Punct.written
    (mark : Punct) : Language TokenKind :=
  TokenKind.written (.punct mark)

namespace Spelling

/- A part that is there or not. -/
def present
    (isThere : Bool)
    (part : Language TokenKind) : Language TokenKind :=
  if isThere then part else 1

/- An optional part with a token in front of it. -/
def behind
    (lead : TokenKind) :
    Option (Language TokenKind) → Language TokenKind
  | none => 1
  | some part => lead.written * part

/- Parts with a mark between them. -/
def separated
    (mark : Punct) :
    List (Language TokenKind) → Language TokenKind
  | [] => 1
  | part :: parts =>
      part * (parts.map (mark.written * ·)).prod

end Spelling

open Spelling

------------------------------------------------------------
-- Names And Literals
------------------------------------------------------------

/- The kind of the token that a literal is. -/
def LiteralValue.kind : LiteralValue → TokenKind
  | number value suffix => .number value suffix
  | bool b => .bool b
  | string s => .string s

/- A literal is one token. -/
def Literal.spellings
    (l : Literal) : Language TokenKind :=
  l.value.kind.written

namespace Identifier

/- A name is the word that it consists of. -/
def spellings
    (i : Identifier) : Language TokenKind :=
  (TokenKind.ofWord i.name).written

/- Type parameters; none at all have no angle brackets. -/
def typeParamSpellings :
    List Identifier → Language TokenKind
  | [] => 1
  | names =>
      Punct.leftAngle.written *
        separated .comma (names.map spellings) *
        Punct.rightAngle.written

end Identifier

/- The names of a path with `::` between them. -/
def Path.spellings
    (p : Path) : Language TokenKind :=
  separated .colonColon
    (p.segments.map Identifier.spellings)

------------------------------------------------------------
-- Types And Patterns
------------------------------------------------------------

namespace Ty

mutual

/- How a type expression is written. -/
def spellings : Ty → Language TokenKind
  | path p => p.spellings
  | reference isMut inner _ =>
      Punct.ampersand.written *
        present isMut Keyword.mutKw.written *
        inner.spellings
  | tuple elements _ =>
      Punct.leftParen.written *
        separated .comma (spellingsAll elements) *
        Punct.rightParen.written
  | primitive kind _ => TokenKind.written (.primitive kind)

/- How each type expression of a list is written. -/
def spellingsAll : List Ty → List (Language TokenKind)
  | [] => []
  | ty :: tys => ty.spellings :: spellingsAll tys

end

/- The spellings of a list are those of its types. -/
@[simp] theorem spellingsAll_eq
    (tys : List Ty) :
    spellingsAll tys = tys.map spellings := by
  induction tys with
  | nil => rfl
  | cons ty tys ih => simp [spellingsAll, ih]

end Ty

namespace Pattern

mutual

/- How a pattern is written. -/
def spellings : Pattern → Language TokenKind
  | identifier name => name.spellings
  | literal l => l.spellings
  | wildcard _ => Keyword.underscore.written
  | tupleStruct path elements _ =>
      path.spellings * Punct.leftParen.written *
        separated .comma (spellingsAll elements) *
        Punct.rightParen.written

/- How each pattern of a list is written. -/
def spellingsAll : List Pattern → List (Language TokenKind)
  | [] => []
  | p :: ps => p.spellings :: spellingsAll ps

end

/- The spellings of a list are those of its patterns. -/
@[simp] theorem spellingsAll_eq
    (ps : List Pattern) :
    spellingsAll ps = ps.map spellings := by
  induction ps with
  | nil => rfl
  | cons p ps ih => simp [spellingsAll, ih]

end Pattern

------------------------------------------------------------
-- Expressions And Blocks
------------------------------------------------------------

mutual

/- How an expression is written. -/
def Expression.spellings : Expression → Language TokenKind
  | .literal l => l.spellings
  | .path p => p.spellings
  | .block b => b.spellings
  | .matching m => m.spellings

/- How a block is written. -/
def Block.spellings : Block → Language TokenKind
  | ⟨statements, tail, _⟩ =>
      Punct.leftBrace.written *
        (Block.statementSpellings statements).prod *
        (Expression.optionSpellings tail).getD 1 *
        Punct.rightBrace.written

/- How a statement is written. -/
def Statement.spellings : Statement → Language TokenKind
  | .binding b => b.spellings
  | .expression value _ =>
      value.spellings * Punct.semicolon.written

/- How a `let` is written. -/
def LetBinding.spellings : LetBinding → Language TokenKind
  | ⟨isMut, name, ty, value, _⟩ =>
      Keyword.letKw.written *
        present isMut Keyword.mutKw.written *
        name.spellings *
        behind (.punct .colon) (ty.map Ty.spellings) *
        behind (.punct .equals)
          (Expression.optionSpellings value) *
        Punct.semicolon.written

/- How a `match` is written. -/
def Match.spellings : Match → Language TokenKind
  | ⟨value, arms, _⟩ =>
      Keyword.matchKw.written * value.spellings *
        Punct.leftBrace.written *
        (Match.armSpellings arms).prod *
        Punct.rightBrace.written

/- How an arm is written, with or without a semicolon. -/
def MatchArm.spellings : MatchArm → Language TokenKind
  | ⟨pattern, value, _⟩ =>
      pattern.spellings * Punct.fatArrow.written *
        value.spellings * (1 + Punct.semicolon.written)

/- How each statement of a list is written. -/
def Block.statementSpellings :
    List Statement → List (Language TokenKind)
  | [] => []
  | s :: ss => s.spellings :: Block.statementSpellings ss

/- How each arm of a list is written. -/
def Match.armSpellings :
    List MatchArm → List (Language TokenKind)
  | [] => []
  | a :: as => a.spellings :: Match.armSpellings as

/- How an expression that may be left out is written. -/
def Expression.optionSpellings :
    Option Expression → Option (Language TokenKind)
  | none => none
  | some e => some e.spellings

end

/- The spellings of a list are those of its statements. -/
@[simp] theorem Block.statementSpellings_eq
    (ss : List Statement) :
    statementSpellings ss = ss.map Statement.spellings := by
  induction ss with
  | nil => rfl
  | cons s ss ih => simp [statementSpellings, ih]

/- The spellings of a list are those of its arms. -/
@[simp] theorem Match.armSpellings_eq
    (arms : List MatchArm) :
    armSpellings arms = arms.map MatchArm.spellings := by
  induction arms with
  | nil => rfl
  | cons a arms ih => simp [armSpellings, ih]

/- An expression that is missing has no spellings. -/
@[simp] theorem Expression.optionSpellings_eq
    (e : Option Expression) :
    optionSpellings e = e.map Expression.spellings := by
  cases e with
  | none => rfl
  | some e => rfl

------------------------------------------------------------
-- Definitions
------------------------------------------------------------

/- The optional `pub` in front of a definition. -/
def Spelling.visibility
    (isPub : Bool) : Language TokenKind :=
  present isPub Keyword.pubKw.written

/- How a parameter is written. -/
def Param.spellings
    (p : Param) : Language TokenKind :=
  p.name.spellings * Punct.colon.written * p.ty.spellings

/- How a field is written. -/
def Field.spellings
    (f : Field) : Language TokenKind :=
  visibility f.isPub * f.name.spellings *
    Punct.colon.written * f.ty.spellings

namespace Function

/- How a function is written. -/
def spellings
    (f : Function) : Language TokenKind :=
  visibility f.isPub * Keyword.fnKw.written *
    f.name.spellings *
    Identifier.typeParamSpellings f.typeParams *
    Punct.leftParen.written *
    separated .comma (f.params.map Param.spellings) *
    Punct.rightParen.written *
    behind (.punct .arrow) (f.returnType.map Ty.spellings) *
    f.body.spellings

/- How the functions of a trait or an impl are written. -/
def listSpellings
    (fs : List Function) : Language TokenKind :=
  Punct.leftBrace.written * (fs.map spellings).prod *
    Punct.rightBrace.written

end Function

namespace Struct

/- How the part behind the name of a struct is written. -/
def bodySpellings :
    Option (List Field) → Language TokenKind
  | none => Punct.semicolon.written
  | some fields =>
      Punct.leftBrace.written *
        separated .comma (fields.map Field.spellings) *
        Punct.rightBrace.written

/- How a struct is written. -/
def spellings
    (s : Struct) : Language TokenKind :=
  visibility s.isPub * Keyword.structKw.written *
    s.name.spellings *
    Identifier.typeParamSpellings s.typeParams *
    bodySpellings s.fields

end Struct

/- How a constant is written. -/
def Constant.spellings
    (c : Constant) : Language TokenKind :=
  visibility c.isPub * Keyword.constKw.written *
    c.name.spellings * Punct.colon.written *
    c.ty.spellings * Punct.equals.written *
    c.value.spellings * Punct.semicolon.written

/- How a type alias is written. -/
def TypeAlias.spellings
    (a : TypeAlias) : Language TokenKind :=
  visibility a.isPub * Keyword.typeKw.written *
    a.name.spellings *
    Identifier.typeParamSpellings a.typeParams *
    Punct.equals.written * a.ty.spellings *
    Punct.semicolon.written

/- How a trait is written. -/
def Trait.spellings
    (t : Trait) : Language TokenKind :=
  visibility t.isPub * Keyword.traitKw.written *
    t.name.spellings *
    Identifier.typeParamSpellings t.typeParams *
    Function.listSpellings t.functions

/- How an impl is written. -/
def Impl.spellings
    (i : Impl) : Language TokenKind :=
  Keyword.implKw.written * i.ty.spellings *
    behind (.keyword .forKw) (i.traitTy.map Ty.spellings) *
    Function.listSpellings i.functions

mutual

/- How a definition is written. -/
def Definition.spellings : Definition → Language TokenKind
  | .module m => m.spellings
  | .function f => f.spellings
  | .struct s => s.spellings
  | .constant c => c.spellings
  | .typeAlias a => a.spellings
  | .trait t => t.spellings
  | .impl i => i.spellings

/- How a module is written. -/
def Module.spellings : Module → Language TokenKind
  | ⟨name, definitions, _⟩ =>
      Keyword.modKw.written * name.spellings *
        Punct.leftBrace.written *
        (Module.definitionSpellings definitions).prod *
        Punct.rightBrace.written

/- How each definition of a list is written. -/
def Module.definitionSpellings :
    List Definition → List (Language TokenKind)
  | [] => []
  | d :: ds => d.spellings :: Module.definitionSpellings ds

end

/- The spellings of a list are those of its definitions. -/
@[simp] theorem Module.definitionSpellings_eq
    (ds : List Definition) :
    definitionSpellings ds =
      ds.map Definition.spellings := by
  induction ds with
  | nil => rfl
  | cons d ds ih => simp [definitionSpellings, ih]

------------------------------------------------------------
-- Source Files
------------------------------------------------------------

/- The definitions of a file, one behind the other. -/
def SourceFile.spellings
    (f : SourceFile) : Language TokenKind :=
  (f.definitions.map Definition.spellings).prod

end FeSyntax
