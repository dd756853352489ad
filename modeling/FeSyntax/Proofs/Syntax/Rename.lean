import FeSyntax.Ast.Definition
import FeSyntax.Parse.Piece
import FeSyntax.Proofs.Lexing.Word

/-
  This file defines renamings, which change the payloads of
  tokens: the names of identifiers, and the numbers and the
  strings of literals.  A renaming acts on token kinds and
  on syntax trees.  A reserved word that is used as a name
  is no identifier token, so it stays as it is.

  Key definitions include:
    * `Renaming`
    * `Renaming.kind`
    * `Renaming.word`
    * `Ty.rename`
    * `Pattern.rename`
    * `Expression.rename`
    * `Definition.rename`
    * `SourceFile.rename`
    * `Renaming.identity`

  Key theorems include:
    * `Renaming.word?_kind`
    * `Renaming.kind_eq_keyword_iff`
    * `Renaming.kind_eq_punct_iff`
    * `SourceFile.rename_identity`
-/

namespace FeSyntax

------------------------------------------------------------
-- Renamings
------------------------------------------------------------

/-
  A map of payloads: names to names, numbers with their
  suffixes to the same, and strings to strings.
-/
structure Renaming where
  name : String → String
  number :
    Option Nat × Option IntSuffix →
      Option Nat × Option IntSuffix
  string : String → String

namespace Renaming

variable (r : Renaming)

/- The kind of a token with its payload changed. -/
def kind : TokenKind → TokenKind
  | .identifier n => .identifier (r.name n)
  | .number value suffix =>
      .number (r.number (value, suffix)).1
        (r.number (value, suffix)).2
  | .string s => .string (r.string s)
  | kind => kind

/-
  A name with its payload changed, if it is written as an
  identifier token.  No reserved word is.
-/
def word
    (w : String) : String :=
  if TokenKind.reserved? w = none then
    r.name w
  else
    w

/- The value of a literal with its payload changed. -/
def value : LiteralValue → LiteralValue
  | .number value suffix =>
      .number (r.number (value, suffix)).1
        (r.number (value, suffix)).2
  | .bool b => .bool b
  | .string s => .string (r.string s)

------------------------------------------------------------
-- Renamed Token Kinds
------------------------------------------------------------

/- Only a keyword is renamed to that keyword. -/
@[simp] theorem kind_eq_keyword_iff
    {kind : TokenKind}
    {k : Keyword} :
    r.kind kind = .keyword k ↔ kind = .keyword k := by
  cases kind <;> simp [Renaming.kind]

/- Only a punctuation mark is renamed to that mark. -/
@[simp] theorem kind_eq_punct_iff
    {kind : TokenKind}
    {p : Punct} :
    r.kind kind = .punct p ↔ kind = .punct p := by
  cases kind <;> simp [Renaming.kind]

/- Primitive types are not renamed. -/
@[simp] theorem primitive?_kind
    (kind : TokenKind) :
    (r.kind kind).primitive? = kind.primitive? := by
  cases kind <;> rfl

/- A literal keeps its form, and its value is renamed. -/
@[simp] theorem literal?_kind
    (kind : TokenKind) :
    (r.kind kind).literal? = kind.literal?.map r.value := by
  cases kind <;> rfl

/- A word is renamed to a word, and nothing else is. -/
@[simp] theorem isSome_word?_kind
    (kind : TokenKind) :
    (r.kind kind).word?.isSome = kind.word?.isSome := by
  cases kind <;> rfl

/- The kinds of the reserved words have no payload. -/
theorem kind_of_mem_reservedWords :
    ∀ entry ∈ TokenKind.reservedWords,
      r.kind entry.2 = entry.2 := by
  intro entry hMem
  simp only [TokenKind.reservedWords, List.mem_append,
    List.mem_map] at hMem
  rcases hMem with
    (⟨k, -, rfl⟩ | ⟨p, -, rfl⟩) | ⟨b, -, rfl⟩ <;> rfl

/- A reserved word stays, and an identifier is renamed. -/
theorem word?_kind_ofWord
    (w : String) :
    (r.kind (.ofWord w)).word? = some (r.word w) := by
  unfold TokenKind.ofWord word
  cases hReserved : TokenKind.reserved? w with
  | none => rfl
  | some kind =>
      rcases List.lookup_eq_some_iff.mp hReserved with
        ⟨before, behind, hTable, -⟩
      have hMem : (w, kind) ∈ TokenKind.reservedWords := by
        simp [hTable]
      rw [Option.getD_some, if_neg nofun,
        r.kind_of_mem_reservedWords _ hMem]
      exact TokenKind.word?_of_reserved?_eq_some hReserved

/- A proper kind is written as a word that is renamed. -/
theorem word?_kind
    {kind : TokenKind}
    (hProper : kind.IsProper) :
    (r.kind kind).word? = kind.word?.map r.word := by
  cases hWord : kind.word? with
  | none =>
      rw [Option.map_none, ← Option.not_isSome_iff_eq_none,
        isSome_word?_kind, hWord]
      exact Bool.false_ne_true
  | some w =>
      rw [hProper w hWord, word?_kind_ofWord]
      rfl

end Renaming

------------------------------------------------------------
-- Names And Literals
------------------------------------------------------------

/- The name, renamed. -/
def Identifier.rename
    (r : Renaming)
    (i : Identifier) : Identifier :=
  ⟨r.word i.name, i.span⟩

/- The path with its names renamed. -/
def Path.rename
    (r : Renaming)
    (p : Path) : Path :=
  ⟨p.segments.map (Identifier.rename r), p.span⟩

/- The literal with its payload changed. -/
def Literal.rename
    (r : Renaming)
    (l : Literal) : Literal :=
  ⟨r.value l.value, l.span⟩

------------------------------------------------------------
-- Types And Patterns
------------------------------------------------------------

namespace Ty

mutual

/- The type expression with its names renamed. -/
def rename
    (r : Renaming) : Ty → Ty
  | path p => path (p.rename r)
  | reference isMut inner span =>
      reference isMut (inner.rename r) span
  | tuple elements span => tuple (renameAll r elements) span
  | primitive kind span => primitive kind span

/- The type expressions with their names renamed. -/
def renameAll
    (r : Renaming) : List Ty → List Ty
  | [] => []
  | ty :: tys => ty.rename r :: renameAll r tys

end

/- Each type of a list is renamed. -/
@[simp] theorem renameAll_eq
    (r : Renaming)
    (tys : List Ty) :
    renameAll r tys = tys.map (rename r) := by
  induction tys with
  | nil => rfl
  | cons ty tys ih => simp [renameAll, ih]

end Ty

namespace Pattern

mutual

/- The pattern, renamed. -/
def rename
    (r : Renaming) : Pattern → Pattern
  | identifier name => identifier (name.rename r)
  | literal l => literal (l.rename r)
  | wildcard span => wildcard span
  | tupleStruct path elements span =>
      tupleStruct (path.rename r) (renameAll r elements) span

/- The patterns, renamed. -/
def renameAll
    (r : Renaming) : List Pattern → List Pattern
  | [] => []
  | p :: ps => p.rename r :: renameAll r ps

end

/- Each pattern of a list is renamed. -/
@[simp] theorem renameAll_eq
    (r : Renaming)
    (ps : List Pattern) :
    renameAll r ps = ps.map (rename r) := by
  induction ps with
  | nil => rfl
  | cons p ps ih => simp [renameAll, ih]

end Pattern

------------------------------------------------------------
-- Expressions And Blocks
------------------------------------------------------------

mutual

/- The expression, renamed. -/
def Expression.rename
    (r : Renaming) : Expression → Expression
  | .literal l => .literal (l.rename r)
  | .path p => .path (p.rename r)
  | .block b => .block (b.rename r)
  | .matching m => .matching (m.rename r)

/- The block, renamed. -/
def Block.rename
    (r : Renaming) : Block → Block
  | ⟨statements, tail, span⟩ =>
      ⟨Block.renameStatements r statements,
        Expression.renameOption r tail, span⟩

/- The statement, renamed. -/
def Statement.rename
    (r : Renaming) : Statement → Statement
  | .binding b => .binding (b.rename r)
  | .expression value span =>
      .expression (value.rename r) span

/- The `let`, renamed. -/
def LetBinding.rename
    (r : Renaming) : LetBinding → LetBinding
  | ⟨isMut, name, ty, value, span⟩ =>
      ⟨isMut, name.rename r, ty.map (Ty.rename r),
        Expression.renameOption r value, span⟩

/- The `match`, renamed. -/
def Match.rename
    (r : Renaming) : Match → Match
  | ⟨value, arms, span⟩ =>
      ⟨value.rename r, Match.renameArms r arms, span⟩

/- The arm, renamed. -/
def MatchArm.rename
    (r : Renaming) : MatchArm → MatchArm
  | ⟨pattern, value, span⟩ =>
      ⟨pattern.rename r, value.rename r, span⟩

/- The statements, renamed. -/
def Block.renameStatements
    (r : Renaming) : List Statement → List Statement
  | [] => []
  | s :: ss => s.rename r :: Block.renameStatements r ss

/- The arms, renamed. -/
def Match.renameArms
    (r : Renaming) : List MatchArm → List MatchArm
  | [] => []
  | a :: as => a.rename r :: Match.renameArms r as

/- The optional expression, renamed. -/
def Expression.renameOption
    (r : Renaming) : Option Expression → Option Expression
  | none => none
  | some e => some (e.rename r)

end

/- Each statement of a list is renamed. -/
@[simp] theorem Block.renameStatements_eq
    (r : Renaming)
    (ss : List Statement) :
    renameStatements r ss = ss.map (Statement.rename r) := by
  induction ss with
  | nil => rfl
  | cons s ss ih => simp [renameStatements, ih]

@[simp] theorem Match.renameArms_eq
    (r : Renaming)
    (arms : List MatchArm) :
    renameArms r arms = arms.map (MatchArm.rename r) := by
  induction arms with
  | nil => rfl
  | cons a arms ih => simp [renameArms, ih]

/- An expression is renamed if there is one. -/
@[simp] theorem Expression.renameOption_eq
    (r : Renaming)
    (e : Option Expression) :
    renameOption r e = e.map (Expression.rename r) := by
  cases e with
  | none => rfl
  | some e => rfl

------------------------------------------------------------
-- Definitions
------------------------------------------------------------

/- The parameter, renamed. -/
def Param.rename
    (r : Renaming)
    (p : Param) : Param :=
  ⟨p.name.rename r, p.ty.rename r, p.span⟩

/- The field, renamed. -/
def Field.rename
    (r : Renaming)
    (d : Field) : Field :=
  ⟨d.isPub, d.name.rename r, d.ty.rename r, d.span⟩

/- The function, renamed. -/
def Function.rename
    (r : Renaming)
    (d : Function) : Function :=
  { isPub := d.isPub
    name := d.name.rename r
    typeParams := d.typeParams.map (Identifier.rename r)
    params := d.params.map (Param.rename r)
    returnType := d.returnType.map (Ty.rename r)
    body := d.body.rename r
    span := d.span }

/- The struct, renamed. -/
def Struct.rename
    (r : Renaming)
    (d : Struct) : Struct :=
  { isPub := d.isPub
    name := d.name.rename r
    typeParams := d.typeParams.map (Identifier.rename r)
    fields := d.fields.map (List.map (Field.rename r))
    span := d.span }

/- The constant, renamed. -/
def Constant.rename
    (r : Renaming)
    (d : Constant) : Constant :=
  { isPub := d.isPub
    name := d.name.rename r
    ty := d.ty.rename r
    value := d.value.rename r
    span := d.span }

/- The type alias, renamed. -/
def TypeAlias.rename
    (r : Renaming)
    (d : TypeAlias) : TypeAlias :=
  { isPub := d.isPub
    name := d.name.rename r
    typeParams := d.typeParams.map (Identifier.rename r)
    ty := d.ty.rename r
    span := d.span }

/- The trait, renamed. -/
def Trait.rename
    (r : Renaming)
    (d : Trait) : Trait :=
  { isPub := d.isPub
    name := d.name.rename r
    typeParams := d.typeParams.map (Identifier.rename r)
    functions := d.functions.map (Function.rename r)
    span := d.span }

/- The impl, renamed. -/
def Impl.rename
    (r : Renaming)
    (d : Impl) : Impl :=
  { ty := d.ty.rename r
    traitTy := d.traitTy.map (Ty.rename r)
    functions := d.functions.map (Function.rename r)
    span := d.span }

mutual

/- The definition, renamed. -/
def Definition.rename
    (r : Renaming) : Definition → Definition
  | .module m => .module (m.rename r)
  | .function d => .function (d.rename r)
  | .struct d => .struct (d.rename r)
  | .constant d => .constant (d.rename r)
  | .typeAlias d => .typeAlias (d.rename r)
  | .trait d => .trait (d.rename r)
  | .impl d => .impl (d.rename r)

/- The module, renamed. -/
def Module.rename
    (r : Renaming) : Module → Module
  | ⟨name, definitions, span⟩ =>
      ⟨name.rename r, Module.renameDefinitions r definitions,
        span⟩

/- The definitions, renamed. -/
def Module.renameDefinitions
    (r : Renaming) : List Definition → List Definition
  | [] => []
  | d :: ds => d.rename r :: Module.renameDefinitions r ds

end

/- Each definition of a list is renamed. -/
@[simp] theorem Module.renameDefinitions_eq
    (r : Renaming)
    (ds : List Definition) :
    renameDefinitions r ds =
      ds.map (Definition.rename r) := by
  induction ds with
  | nil => rfl
  | cons d ds ih => simp [renameDefinitions, ih]

/- The file, renamed; its comments are not touched. -/
def SourceFile.rename
    (r : Renaming)
    (f : SourceFile) : SourceFile :=
  { f with
    definitions := f.definitions.map (Definition.rename r) }

------------------------------------------------------------
-- The Identity
------------------------------------------------------------

/- The renaming that changes nothing. -/
def Renaming.identity : Renaming :=
  ⟨id, id, id⟩

namespace Renaming

/- The identity keeps every kind of token. -/
@[simp] theorem kind_identity :
    identity.kind = id := by
  funext kind
  cases kind <;> rfl

/- It keeps every word. -/
@[simp] theorem word_identity
    (w : String) :
    identity.word w = w := by
  simp [word, identity]

/- It keeps every value of a literal. -/
@[simp] theorem value_identity
    (v : LiteralValue) :
    identity.value v = v := by
  cases v <;> rfl

end Renaming

@[simp] theorem Identifier.rename_identity :
    Identifier.rename .identity = id := by
  funext i
  simp [rename]

/- A path is kept segment by segment. -/
@[simp] theorem Path.rename_identity
    (p : Path) :
    p.rename .identity = p := by
  simp [rename]

/- A literal is kept with its value. -/
@[simp] theorem Literal.rename_identity
    (l : Literal) :
    l.rename .identity = l := by
  simp [rename]

mutual

/- A type is kept, by induction on its parts. -/
theorem Ty.rename_identity_eq
    (ty : Ty) :
    ty.rename .identity = ty := by
  cases ty with
  | path p => simp [Ty.rename]
  | reference isMut inner span =>
      simp [Ty.rename, Ty.rename_identity_eq inner]
  | tuple elements span =>
      simp [Ty.rename, Ty.map_rename_identity elements]
  | primitive kind span => rfl

/- The types of a list are kept. -/
theorem Ty.map_rename_identity
    (tys : List Ty) :
    tys.map (Ty.rename .identity) = tys := by
  cases tys with
  | nil => rfl
  | cons ty tys =>
      simp [Ty.rename_identity_eq ty,
        Ty.map_rename_identity tys]

end

/- The same as an equation of functions. -/
@[simp] theorem Ty.rename_identity :
    Ty.rename .identity = id :=
  funext Ty.rename_identity_eq

mutual

/- A pattern is kept, by induction on its parts. -/
theorem Pattern.rename_identity
    (p : Pattern) :
    p.rename .identity = p := by
  cases p with
  | identifier name => simp [Pattern.rename]
  | literal l => simp [Pattern.rename]
  | wildcard span => rfl
  | tupleStruct path elements span =>
      simp [Pattern.rename,
        Pattern.map_rename_identity elements]

/- The patterns of a list are kept. -/
theorem Pattern.map_rename_identity
    (ps : List Pattern) :
    ps.map (Pattern.rename .identity) = ps := by
  cases ps with
  | nil => rfl
  | cons p ps =>
      simp [Pattern.rename_identity p,
        Pattern.map_rename_identity ps]

end

mutual

/- An expression is kept, whichever form it has. -/
theorem Expression.rename_identity
    (e : Expression) :
    e.rename .identity = e := by
  cases e with
  | literal l => simp [Expression.rename]
  | path p => simp [Expression.rename]
  | block b =>
      simp [Expression.rename, Block.rename_identity b]
  | matching m =>
      simp [Expression.rename, Match.rename_identity m]

/- A block is kept statement by statement. -/
theorem Block.rename_identity
    (b : Block) :
    b.rename .identity = b := by
  rcases b with ⟨statements, tail, span⟩
  simp [Block.rename,
    Block.map_statement_rename_identity statements,
    Expression.map_rename_identity tail]

/- A statement is kept, whichever form it has. -/
theorem Statement.rename_identity
    (s : Statement) :
    s.rename .identity = s := by
  cases s with
  | binding b =>
      simp [Statement.rename, LetBinding.rename_identity b]
  | expression value span =>
      simp [Statement.rename,
        Expression.rename_identity value]

/-
  A binding is kept with its name, its type and its value.
-/
theorem LetBinding.rename_identity
    (b : LetBinding) :
    b.rename .identity = b := by
  rcases b with ⟨isMut, name, ty, value, span⟩
  simp [LetBinding.rename,
    Expression.map_rename_identity value]

theorem Match.rename_identity
    (m : Match) :
    m.rename .identity = m := by
  rcases m with ⟨value, arms, span⟩
  simp [Match.rename, Expression.rename_identity value,
    Match.map_arm_rename_identity arms]

/- An arm is kept with its pattern and its body. -/
theorem MatchArm.rename_identity
    (a : MatchArm) :
    a.rename .identity = a := by
  rcases a with ⟨pattern, value, span⟩
  simp [MatchArm.rename, Pattern.rename_identity pattern,
    Expression.rename_identity value]

/- The statements of a list are kept. -/
theorem Block.map_statement_rename_identity
    (ss : List Statement) :
    ss.map (Statement.rename .identity) = ss := by
  cases ss with
  | nil => rfl
  | cons s ss =>
      simp [Statement.rename_identity s,
        Block.map_statement_rename_identity ss]

theorem Match.map_arm_rename_identity
    (arms : List MatchArm) :
    arms.map (MatchArm.rename .identity) = arms := by
  cases arms with
  | nil => rfl
  | cons a arms =>
      simp [MatchArm.rename_identity a,
        Match.map_arm_rename_identity arms]

/- An expression that may be missing is kept. -/
theorem Expression.map_rename_identity
    (e : Option Expression) :
    e.map (Expression.rename .identity) = e := by
  cases e with
  | none => rfl
  | some e => simp [Expression.rename_identity e]

end

@[simp] theorem Param.rename_identity :
    Param.rename .identity = id := by
  funext p
  simp [rename]

@[simp] theorem Field.rename_identity :
    Field.rename .identity = id := by
  funext d
  simp [rename]

/- Functions are kept with all their parts. -/
@[simp] theorem Function.rename_identity :
    Function.rename .identity = id := by
  funext d
  simp [rename, Block.rename_identity]

mutual

/- A definition is kept, whichever form it has. -/
theorem Definition.rename_identity
    (d : Definition) :
    d.rename .identity = d := by
  cases d with
  | module m =>
      simp [Definition.rename, Module.rename_identity m]
  | function d => simp [Definition.rename]
  | struct d => simp [Definition.rename, Struct.rename]
  | constant d =>
      simp [Definition.rename, Constant.rename,
        Expression.rename_identity]
  | typeAlias d =>
      simp [Definition.rename, TypeAlias.rename]
  | trait d => simp [Definition.rename, Trait.rename]
  | impl d => simp [Definition.rename, Impl.rename]

/- A module is kept definition by definition. -/
theorem Module.rename_identity
    (m : Module) :
    m.rename .identity = m := by
  rcases m with ⟨name, definitions, span⟩
  simp [Module.rename,
    Definition.map_rename_identity definitions]

/- The definitions of a list are kept. -/
theorem Definition.map_rename_identity
    (ds : List Definition) :
    ds.map (Definition.rename .identity) = ds := by
  cases ds with
  | nil => rfl
  | cons d ds =>
      simp [Definition.rename_identity d,
        Definition.map_rename_identity ds]

end

/- A file is not changed by the identity. -/
theorem SourceFile.rename_identity
    (f : SourceFile) :
    f.rename .identity = f := by
  rw [rename, Definition.map_rename_identity]

end FeSyntax
