import FeSyntax.Proofs.Syntax.Parts
import FeSyntax.Proofs.Syntax.Spelling

/-
  This file compares how a syntax tree is written with the
  leaves that a walk finds in it.  A name, a literal, a
  primitive type and a wildcard are a token each.  All other
  tokens of a spelling are marks and keywords that frame
  them: without those, a spelling shows the leaves in the
  order of the walk.

  Key definitions include:
    * `Node.leafKind?`
    * `TokenKind.isFrame`
    * `Node.spellings`
    * `Shows`
    * `Node.IsShown`

  Key theorems include:
    * `Shows.mul`
    * `Shows.separated`
    * `Node.isShown`
-/

namespace FeSyntax

------------------------------------------------------------
-- Leaves And Frames
------------------------------------------------------------

namespace Node

/- The kind of the token that a leaf is. -/
def leafKind? : Node → Option TokenKind
  | identifier i => some (.ofWord i.name)
  | literal l => some l.value.kind
  | ty (.primitive kind _) => some (.primitive kind)
  | pattern (.wildcard _) => some (.keyword .underscore)
  | _ => none

/- The kinds of the leaves of a node and all below it. -/
def leafKinds
    (n : Node) : List TokenKind :=
  n.all.filterMap leafKind?

/-
  The leaves of a node are itself, if it is one, and those
  of its parts.
-/
theorem leafKinds_eq
    (n : Node) :
    n.leafKinds =
      n.leafKind?.toList ++ n.parts.flatMap leafKinds := by
  rw [leafKinds, all_eq, List.filterMap_cons, below,
    List.filterMap_flatMap]
  cases n.leafKind? <;> rfl

/- How what starts at a node is written. -/
def spellings : Node → Language TokenKind
  | sourceFile f => f.spellings
  | definition d => d.spellings
  | function f => f.spellings
  | param p => p.spellings
  | field f => f.spellings
  | ty t => t.spellings
  | block b => b.spellings
  | statement s => s.spellings
  | expression e => e.spellings
  | matchArm a => a.spellings
  | pattern p => p.spellings
  | path p => p.spellings
  | literal l => l.spellings
  | identifier i => i.spellings

end Node

namespace TokenKind

/- Marks and keywords frame leaves; a wildcard is one. -/
def isFrame : TokenKind → Bool
  | keyword k => k ≠ .underscore
  | punct _ => true
  | _ => false

/- Kinds without those that frame others. -/
def unframed
    (kinds : List TokenKind) : List TokenKind :=
  kinds.filter (fun kind => !kind.isFrame)

end TokenKind

------------------------------------------------------------
-- Spellings That Show Leaves
------------------------------------------------------------

/- But for frames, every word of a language is as given. -/
def Shows
    (l : Language TokenKind)
    (kinds : List TokenKind) : Prop :=
  ∀ w ∈ l, TokenKind.unframed w = TokenKind.unframed kinds

/- Every spelling of a node shows its leaves. -/
def Node.IsShown
    (n : Node) : Prop :=
  Shows n.spellings n.leafKinds

namespace Shows

variable {l m : Language TokenKind}
variable {kinds kinds' : List TokenKind}
variable {kind : TokenKind}

theorem one :
    Shows 1 [] := by
  intro w hWord
  rw [(Language.mem_one w).mp hWord]

theorem leaf
    (kind : TokenKind) :
    Shows kind.written [kind] := by
  intro w hWord
  rw [TokenKind.mem_written_iff.mp hWord]

theorem frame
    (hFrame : kind.isFrame = true) :
    Shows kind.written [] := by
  intro w hWord
  rw [TokenKind.mem_written_iff.mp hWord]
  exact List.filter_cons_of_neg (by simp [hFrame])

/- What stands in a row is shown in a row. -/
theorem mul
    (hFirst : Shows l kinds)
    (hSecond : Shows m kinds') :
    Shows (l * m) (kinds ++ kinds') := by
  intro w hWord
  rcases Language.mem_mul.mp hWord with
    ⟨before, hBefore, behind, hBehind, rfl⟩
  rw [TokenKind.unframed, List.filter_append,
    TokenKind.unframed, List.filter_append]
  exact congrArg₂ (· ++ ·) (hFirst before hBefore)
    (hSecond behind hBehind)

/- A frame behind a part shows no more. -/
theorem mul_frame
    (hFirst : Shows l kinds)
    (hFrame : kind.isFrame = true) :
    Shows (l * kind.written) kinds := by
  have hBoth := hFirst.mul (frame hFrame)
  rw [List.append_nil] at hBoth
  exact hBoth

/- Neither does a frame in front of it. -/
theorem frame_mul
    (hFrame : kind.isFrame = true)
    (hSecond : Shows l kinds) :
    Shows (kind.written * l) kinds :=
  (frame hFrame).mul hSecond

/-
  A frame that may be missing shows nothing if it is there.
-/
theorem present
    (isThere : Bool)
    (hPart : Shows l []) :
    Shows (Spelling.present isThere l) [] := by
  cases isThere with
  | true => exact hPart
  | false => exact one

/- A frame that may be left out. -/
theorem mul_optional
    (hFirst : Shows l kinds)
    (hFrame : kind.isFrame = true) :
    Shows (l * (1 + kind.written)) kinds := by
  have hEnd : Shows (1 + kind.written) [] := by
    intro w hWord
    rcases (Language.mem_add _ _ _).mp hWord with
      hNone | hMark
    · exact one w hNone
    · exact frame hFrame w hMark
  have hBoth := hFirst.mul hEnd
  rw [List.append_nil] at hBoth
  exact hBoth

section Parts

variable {α : Type}
variable {spell : α → Language TokenKind}
variable {node : α → Node}

/- A part behind a frame, if it is there. -/
theorem behind
    {part : Option α}
    (hFrame : kind.isFrame = true)
    (hPart :
      ∀ n ∈ (part.map node).toList,
        n.IsShown)
    (hSpell : ∀ a, (node a).spellings = spell a) :
    Shows (Spelling.behind kind (part.map spell))
      ((part.map node).toList.flatMap Node.leafKinds) := by
  cases part with
  | none => exact one
  | some a =>
      have hShown := hPart (node a) (.head _)
      rw [Node.IsShown, hSpell] at hShown
      have hBoth := frame_mul hFrame hShown
      simpa [Spelling.behind] using hBoth

/- Parts in turn. -/
theorem prod
    {as : List α}
    (hParts : ∀ n ∈ as.map node, n.IsShown)
    (hSpell : ∀ a, (node a).spellings = spell a) :
    Shows (as.map spell).prod
      ((as.map node).flatMap Node.leafKinds) := by
  induction as with
  | nil => exact one
  | cons a as ih =>
      rcases List.forall_mem_cons.mp hParts with
        ⟨hFirst, hLater⟩
      rw [Node.IsShown, hSpell] at hFirst
      rw [List.map_cons, List.prod_cons, List.map_cons,
        List.flatMap_cons]
      exact hFirst.mul (ih hLater)

/- Parts with marks between them. -/
theorem separated
    {as : List α}
    (mark : Punct)
    (hParts : ∀ n ∈ as.map node, n.IsShown)
    (hSpell : ∀ a, (node a).spellings = spell a) :
    Shows (Spelling.separated mark (as.map spell))
      ((as.map node).flatMap Node.leafKinds) := by
  have hTail (as : List α)
      (hParts : ∀ n ∈ as.map node, n.IsShown) :
      Shows ((as.map spell).map (mark.written * ·)).prod
        ((as.map node).flatMap Node.leafKinds) := by
    induction as with
    | nil => exact one
    | cons a as ih =>
        rcases List.forall_mem_cons.mp hParts with
          ⟨hFirst, hLater⟩
        rw [Node.IsShown, hSpell] at hFirst
        rw [List.map_cons, List.map_cons, List.prod_cons,
          List.map_cons, List.flatMap_cons]
        exact (frame_mul rfl hFirst).mul (ih hLater)
  cases as with
  | nil => exact one
  | cons a as =>
      rcases List.forall_mem_cons.mp hParts with
        ⟨hFirst, hLater⟩
      rw [Node.IsShown, hSpell] at hFirst
      rw [List.map_cons, List.map_cons, List.flatMap_cons,
        Spelling.separated]
      exact hFirst.mul (hTail as hLater)

end Parts

end Shows

------------------------------------------------------------
-- Names, Types And Patterns
------------------------------------------------------------

namespace Node

open Shows

/- A node shows what it is itself, and then its parts. -/
theorem isShown_of_shows
    {n : Node}
    {kinds : List TokenKind}
    (hShows : Shows n.spellings kinds)
    (hKinds :
      n.leafKind?.toList ++ n.parts.flatMap leafKinds =
        kinds) :
    n.IsShown := by
  rw [IsShown, leafKinds_eq, hKinds]
  exact hShows

theorem isShown_identifier
    (i : Identifier) :
    (identifier i).IsShown :=
  isShown_of_shows (leaf _) rfl

theorem isShown_literal
    (l : Literal) :
    (literal l).IsShown :=
  isShown_of_shows (leaf _) rfl

/- All names are shown. -/
theorem isShown_of_mem_identifiers
    {is : List Identifier} :
    ∀ n ∈ is.map identifier, n.IsShown := by
  intro n hMem
  rcases List.mem_map.mp hMem with ⟨i, -, rfl⟩
  exact isShown_identifier i

/- Type parameters show their names between the frames. -/
theorem shows_typeParams
    (is : List Identifier) :
    Shows (Identifier.typeParamSpellings is)
      ((is.map identifier).flatMap leafKinds) := by
  have hNames :
      Shows
        (Spelling.separated .comma
          (is.map Identifier.spellings))
        ((is.map identifier).flatMap leafKinds) :=
    separated .comma isShown_of_mem_identifiers
      fun _ => rfl
  cases is with
  | nil => exact one
  | cons i is => exact (frame_mul rfl hNames).mul_frame rfl

theorem isShown_path
    (p : Path) :
    (path p).IsShown :=
  isShown_of_shows
    (separated .colonColon isShown_of_mem_identifiers
      fun _ => rfl)
    rfl

/- A type shows its parts, or itself if it is primitive. -/
theorem isShown_ty
    (t : Ty)
    (hParts : ∀ m ∈ (ty t).parts, m.IsShown) :
    (ty t).IsShown := by
  cases t with
  | path p =>
      exact isShown_of_shows (isShown_path p)
        (List.append_nil _)
  | reference isMut inner span =>
      have hInner := List.forall_mem_singleton.mp hParts
      exact isShown_of_shows
        (((frame rfl).mul (present isMut (frame rfl))).mul
          hInner)
        (List.append_nil _)
  | tuple elements span =>
      have hElements :
          Shows
            (Spelling.separated .comma
              (elements.map Ty.spellings))
            ((elements.map ty).flatMap leafKinds) :=
        separated .comma hParts fun _ => rfl
      rw [← Ty.spellingsAll_eq] at hElements
      exact isShown_of_shows
        ((frame_mul rfl hElements).mul_frame rfl) rfl
  | primitive kind span =>
      exact isShown_of_shows (leaf _) rfl

/-
  A pattern shows its parts, or itself if it is a wildcard.
-/
theorem isShown_pattern
    (p : Pattern)
    (hParts : ∀ m ∈ (pattern p).parts, m.IsShown) :
    (pattern p).IsShown := by
  cases p with
  | identifier i =>
      exact isShown_of_shows (isShown_identifier i)
        (List.append_nil _)
  | literal l =>
      exact isShown_of_shows (isShown_literal l)
        (List.append_nil _)
  | wildcard span => exact isShown_of_shows (leaf _) rfl
  | tupleStruct p elements span =>
      rcases List.forall_mem_cons.mp hParts with
        ⟨hPath, hRest⟩
      have hElements :
          Shows
            (Spelling.separated .comma
              (elements.map Pattern.spellings))
            ((elements.map pattern).flatMap leafKinds) :=
        separated .comma hRest fun _ => rfl
      rw [← Pattern.spellingsAll_eq] at hElements
      exact isShown_of_shows
        (((hPath.mul_frame rfl).mul hElements).mul_frame rfl)
        rfl

------------------------------------------------------------
-- Expressions And Blocks
------------------------------------------------------------

/- A block shows its statements and its last expression. -/
theorem isShown_block
    (b : Block)
    (hParts : ∀ m ∈ (block b).parts, m.IsShown) :
    (block b).IsShown := by
  rcases b with ⟨statements, tail, span⟩
  rcases List.forall_mem_append.mp hParts with
    ⟨hStatements, hTail⟩
  have hFront :
      Shows (statements.map Statement.spellings).prod
        ((statements.map statement).flatMap leafKinds) :=
    prod hStatements fun _ => rfl
  have hEnd :
      Shows ((Expression.optionSpellings tail).getD 1)
        ((tail.map expression).toList.flatMap
          leafKinds) := by
    cases tail with
    | none => exact one
    | some e =>
        rw [Option.map_some, Option.toList_some,
          List.flatMap_singleton]
        exact hTail _ (.head _)
  rw [← Block.statementSpellings_eq] at hFront
  exact isShown_of_shows
    (((frame_mul rfl hFront).mul hEnd).mul_frame rfl)
    List.flatMap_append

/-
  A statement shows its name, its type and its value, as far
  as they are there.
-/
theorem isShown_statement
    (s : Statement)
    (hParts : ∀ m ∈ (statement s).parts, m.IsShown) :
    (statement s).IsShown := by
  cases s with
  | binding b =>
      rcases b with ⟨isMut, name, ty?, value, span⟩
      rcases List.forall_mem_cons.mp hParts with
        ⟨hName, hRest⟩
      rcases List.forall_mem_append.mp hRest with
        ⟨hTy, hValue⟩
      have hTy :
          Shows
            (Spelling.behind (.punct .colon)
              (ty?.map Ty.spellings))
            ((ty?.map ty).toList.flatMap leafKinds) :=
        behind rfl hTy fun _ => rfl
      have hValue :
          Shows
            (Spelling.behind (.punct .equals)
              (value.map Expression.spellings))
            ((value.map expression).toList.flatMap
              leafKinds) :=
        behind rfl hValue fun _ => rfl
      rw [← Expression.optionSpellings_eq] at hValue
      have hFront :
          Shows
            (Keyword.letKw.written *
              Spelling.present isMut Keyword.mutKw.written)
            [] :=
        frame_mul rfl (present isMut (frame rfl))
      exact isShown_of_shows
        ((((hFront.mul hName).mul hTy).mul hValue).mul_frame
          rfl)
        (by simp [parts, leafKind?])
  | expression value span =>
      have hValue := List.forall_mem_singleton.mp hParts
      exact isShown_of_shows (hValue.mul_frame rfl)
        (List.append_nil _)

/- An expression shows its parts, whichever form it has. -/
theorem isShown_expression
    (e : Expression)
    (hParts : ∀ m ∈ (expression e).parts, m.IsShown) :
    (expression e).IsShown := by
  cases e with
  | literal l =>
      exact isShown_of_shows (isShown_literal l)
        (List.append_nil _)
  | path p =>
      exact isShown_of_shows (isShown_path p)
        (List.append_nil _)
  | block b =>
      have hBlock := List.forall_mem_singleton.mp hParts
      exact isShown_of_shows hBlock (List.append_nil _)
  | matching m =>
      rcases m with ⟨value, arms, span⟩
      rcases List.forall_mem_cons.mp hParts with
        ⟨hValue, hArms⟩
      have hArms :
          Shows (arms.map MatchArm.spellings).prod
            ((arms.map matchArm).flatMap leafKinds) :=
        prod hArms fun _ => rfl
      rw [← Match.armSpellings_eq] at hArms
      exact isShown_of_shows
        ((((frame_mul rfl hValue).mul_frame rfl).mul
          hArms).mul_frame rfl)
        rfl

/- An arm shows its pattern and then its body. -/
theorem isShown_matchArm
    (a : MatchArm)
    (hParts : ∀ m ∈ (matchArm a).parts, m.IsShown) :
    (matchArm a).IsShown := by
  rcases a with ⟨pattern, value, span⟩
  rcases List.forall_mem_cons.mp hParts with
    ⟨hPattern, hRest⟩
  have hValue := List.forall_mem_singleton.mp hRest
  exact isShown_of_shows
    (((hPattern.mul_frame rfl).mul hValue).mul_optional rfl)
    (by simp [parts, leafKind?])

------------------------------------------------------------
-- Definitions
------------------------------------------------------------

/- A parameter shows its name and then its type. -/
theorem isShown_param
    (p : Param)
    (hParts : ∀ m ∈ (param p).parts, m.IsShown) :
    (param p).IsShown := by
  rcases List.forall_mem_cons.mp hParts with
    ⟨hName, hRest⟩
  have hTy := List.forall_mem_singleton.mp hRest
  exact isShown_of_shows ((hName.mul_frame rfl).mul hTy)
    (by simp [parts, leafKind?])

/- A field shows its name and then its type. -/
theorem isShown_field
    (f : Field)
    (hParts : ∀ m ∈ (field f).parts, m.IsShown) :
    (field f).IsShown := by
  rcases List.forall_mem_cons.mp hParts with
    ⟨hName, hRest⟩
  have hTy := List.forall_mem_singleton.mp hRest
  have hPub : Shows (Spelling.visibility f.isPub) [] :=
    present f.isPub (frame rfl)
  exact isShown_of_shows
    (((hPub.mul hName).mul_frame rfl).mul hTy)
    (by simp [parts, leafKind?])

/- A keyword behind an optional `pub`. -/
theorem shows_lead
    (isPub : Bool)
    (word : Keyword)
    (hFrame : (TokenKind.keyword word).isFrame = true) :
    Shows (Spelling.visibility isPub * word.written) [] :=
  Shows.mul_frame (present isPub (frame rfl)) hFrame

/- A definition whose name comes before type parameters. -/
theorem shows_head
    (isPub : Bool)
    (word : Keyword)
    (name : Identifier)
    (typeParams : List Identifier)
    (hFrame : (TokenKind.keyword word).isFrame = true) :
    Shows
      (Spelling.visibility isPub * word.written *
        name.spellings *
        Identifier.typeParamSpellings typeParams)
      ((identifier name).leafKinds ++
        (typeParams.map identifier).flatMap leafKinds) :=
  ((shows_lead isPub word hFrame).mul
    (isShown_identifier name)).mul
      (shows_typeParams typeParams)

/-
  A function shows its name, its parameters, its return type
  and its block, in that order.
-/
theorem isShown_function
    (f : Function)
    (hParts : ∀ m ∈ (function f).parts, m.IsShown) :
    (function f).IsShown := by
  rcases List.forall_mem_append.mp
      (List.forall_mem_cons.mp hParts).2 with
    ⟨hFront, hBody⟩
  rcases List.forall_mem_append.mp hFront with
    ⟨hFront, hReturn⟩
  rcases List.forall_mem_append.mp hFront with
    ⟨-, hParams⟩
  have hBody := List.forall_mem_singleton.mp hBody
  have hParams :
      Shows
        (Spelling.separated .comma
          (f.params.map Param.spellings))
        ((f.params.map param).flatMap leafKinds) :=
    separated .comma hParams fun _ => rfl
  have hReturn :
      Shows
        (Spelling.behind (.punct .arrow)
          (f.returnType.map Ty.spellings))
        ((f.returnType.map ty).toList.flatMap leafKinds) :=
    behind rfl hReturn fun _ => rfl
  have hHead :=
    shows_head f.isPub .fnKw f.name f.typeParams rfl
  exact isShown_of_shows
    (((((hHead.mul_frame rfl).mul hParams).mul_frame
      rfl).mul hReturn).mul hBody)
    (by simp [parts, leafKind?])

/- Functions in braces. -/
theorem shows_functions
    {fs : List Function}
    (hFunctions : ∀ n ∈ fs.map function, n.IsShown) :
    Shows (Function.listSpellings fs)
      ((fs.map function).flatMap leafKinds) := by
  have hAll :
      Shows (fs.map Function.spellings).prod
        ((fs.map function).flatMap leafKinds) :=
    prod hFunctions fun _ => rfl
  exact (frame_mul rfl hAll).mul_frame rfl

/- The body of a struct shows its fields, if it has any. -/
theorem shows_structBody
    {fields : Option (List Field)}
    (hFields :
      ∀ n ∈ (fields.getD []).map field, n.IsShown) :
    Shows (Struct.bodySpellings fields)
      (((fields.getD []).map field).flatMap leafKinds) := by
  cases fields with
  | none => exact frame rfl
  | some fields =>
      have hAll :
          Shows
            (Spelling.separated .comma
              (fields.map Field.spellings))
            ((fields.map field).flatMap leafKinds) :=
        separated .comma hFields fun _ => rfl
      exact (frame_mul rfl hAll).mul_frame rfl

/- A definition shows its parts, whichever form it has. -/
theorem isShown_definition
    (d : Definition)
    (hParts : ∀ m ∈ (definition d).parts, m.IsShown) :
    (definition d).IsShown := by
  cases d with
  | module m =>
      rcases m with ⟨name, definitions, span⟩
      rcases List.forall_mem_cons.mp hParts with
        ⟨hName, hRest⟩
      have hAll :
          Shows (definitions.map Definition.spellings).prod
            ((definitions.map definition).flatMap
              leafKinds) :=
        prod hRest fun _ => rfl
      rw [← Module.definitionSpellings_eq] at hAll
      exact isShown_of_shows
        ((((frame_mul rfl hName).mul_frame rfl).mul
          hAll).mul_frame rfl)
        rfl
  | function f =>
      have hFunction := List.forall_mem_singleton.mp hParts
      exact isShown_of_shows hFunction (List.append_nil _)
  | struct s =>
      rcases List.forall_mem_append.mp
          (List.forall_mem_cons.mp hParts).2 with
        ⟨-, hFields⟩
      have hHead :=
        shows_head s.isPub .structKw s.name s.typeParams rfl
      exact isShown_of_shows
        (hHead.mul (shows_structBody hFields))
        (by simp [parts, leafKind?])
  | constant c =>
      rcases List.forall_mem_cons.mp hParts with
        ⟨hName, hRest⟩
      rcases List.forall_mem_cons.mp hRest with
        ⟨hTy, hRest⟩
      have hValue := List.forall_mem_singleton.mp hRest
      have hFront :=
        (shows_lead c.isPub .constKw rfl).mul hName
      exact isShown_of_shows
        (((((hFront.mul_frame rfl).mul hTy).mul_frame
          rfl).mul hValue).mul_frame rfl)
        (by simp [parts, leafKind?])
  | typeAlias a =>
      rcases List.forall_mem_append.mp
          (List.forall_mem_cons.mp hParts).2 with
        ⟨-, hTy⟩
      have hTy := List.forall_mem_singleton.mp hTy
      have hHead :=
        shows_head a.isPub .typeKw a.name a.typeParams rfl
      exact isShown_of_shows
        (((hHead.mul_frame rfl).mul hTy).mul_frame rfl)
        (by simp [parts, leafKind?])
  | trait t =>
      rcases List.forall_mem_append.mp
          (List.forall_mem_cons.mp hParts).2 with
        ⟨-, hFunctions⟩
      have hHead :=
        shows_head t.isPub .traitKw t.name t.typeParams rfl
      exact isShown_of_shows
        (hHead.mul (shows_functions hFunctions))
        (by simp [parts, leafKind?])
  | impl i =>
      rcases List.forall_mem_cons.mp hParts with
        ⟨hTy, hRest⟩
      rcases List.forall_mem_append.mp hRest with
        ⟨hTrait, hFunctions⟩
      have hTrait :
          Shows
            (Spelling.behind (.keyword .forKw)
              (i.traitTy.map Ty.spellings))
            ((i.traitTy.map ty).toList.flatMap leafKinds) :=
        behind rfl hTrait fun _ => rfl
      exact isShown_of_shows
        (((frame_mul rfl hTy).mul hTrait).mul
          (shows_functions hFunctions))
        (by simp [parts, leafKind?])

------------------------------------------------------------
-- All Nodes
------------------------------------------------------------

/- But for frames, a spelling of a node is its leaves. -/
theorem isShown
    (n : Node) :
    n.IsShown := by
  induction n using induction with
  | step n hParts =>
      cases n with
      | sourceFile f =>
          exact isShown_of_shows
            (prod hParts fun _ => rfl) rfl
      | definition d => exact isShown_definition d hParts
      | function f => exact isShown_function f hParts
      | param p => exact isShown_param p hParts
      | field f => exact isShown_field f hParts
      | ty t => exact isShown_ty t hParts
      | block b => exact isShown_block b hParts
      | statement s => exact isShown_statement s hParts
      | expression e => exact isShown_expression e hParts
      | matchArm a => exact isShown_matchArm a hParts
      | pattern p => exact isShown_pattern p hParts
      | path p => exact isShown_path p
      | literal l => exact isShown_literal l
      | identifier i => exact isShown_identifier i

end Node

end FeSyntax
