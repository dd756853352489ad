import FeSyntax.Ast.Named

/-
  This file defines the trees of rules that the grammar
  derives a file with, hidden rules included, and what is
  shown of them: a hidden rule gives way to its parts, and
  hands its label to each of them.  It proves that this is
  the named tree of the file.

  Key definitions include:
    * `RuleTree`
    * `RuleTree.shown`
    * `Ty.rule`
    * `Pattern.rule`
    * `Expression.rule`
    * `Definition.rule`
    * `SourceFile.rule`

  Key theorems include:
    * `Ty.shown_rule`
    * `Pattern.shown_rule`
    * `Expression.shown_rule`
    * `Definition.shown_rule`
    * `SourceFile.shown_rule`
-/

namespace FeSyntax

------------------------------------------------------------
-- Trees Of Rules
------------------------------------------------------------

/-
  A rule of the grammar with the rules of its parts, under
  the label of a field, if it has one.  Marks and keywords
  are no rules.
-/
inductive RuleTree where
  | named
      (label : Option FieldName)
      (kind : NamedKind)
      (parts : List RuleTree)
  | hidden
      (label : Option FieldName)
      (parts : List RuleTree)

namespace RuleTree

/- A named rule without parts. -/
def leaf
    (label : Option FieldName)
    (kind : NamedKind) : RuleTree :=
  named label kind []

/- A named rule that stands only around some parts. -/
def around
    (kind : NamedKind) : List RuleTree → List RuleTree
  | [] => []
  | parts => [named none kind parts]

mutual

/-
  The named nodes that are shown of a rule.  A label of its
  own comes before the one of a hidden rule around it.
-/
def shown
    (outer : Option FieldName) : RuleTree → List NamedTree
  | named label kind parts =>
      [.node (label.or outer) kind (shownAll none parts)]
  | hidden label parts => shownAll (label.or outer) parts

/- The named nodes that are shown of rules in turn. -/
def shownAll
    (outer : Option FieldName) :
    List RuleTree → List NamedTree
  | [] => []
  | r :: rs => shown outer r ++ shownAll outer rs

end

variable {outer : Option FieldName}

/-
  A rule without parts shows one node, with the label around
  it if it has none.
-/
@[simp] theorem shown_leaf
    (label : Option FieldName)
    (kind : NamedKind) :
    (leaf label kind).shown outer =
      [.leaf (label.or outer) kind] :=
  rfl

/- Without rules, nothing is shown. -/
@[simp] theorem shownAll_nil :
    shownAll outer [] = [] :=
  rfl

/- Rules in turn are shown in turn. -/
@[simp] theorem shownAll_cons
    (r : RuleTree)
    (rs : List RuleTree) :
    shownAll outer (r :: rs) =
      r.shown outer ++ shownAll outer rs :=
  rfl

@[simp] theorem shownAll_append
    (rs rs' : List RuleTree) :
    shownAll outer (rs ++ rs') =
      shownAll outer rs ++ shownAll outer rs' := by
  induction rs with
  | nil => rfl
  | cons r rs ih =>
      simp only [List.cons_append, shownAll_cons, ih,
        List.append_assoc]

/- Rules that each show one node. -/
theorem shownAll_map
    {α : Type}
    {rule : α → RuleTree}
    {node : α → NamedTree}
    (hOne : ∀ a, (rule a).shown outer = [node a])
    (as : List α) :
    shownAll outer (as.map rule) = as.map node := by
  induction as with
  | nil => rfl
  | cons a as ih =>
      simp only [List.map_cons, shownAll_cons, hOne, ih,
        List.singleton_append]

/- A rule that may be left out. -/
theorem shownAll_map_toList
    {α : Type}
    {rule : α → RuleTree}
    {node : α → NamedTree}
    (hOne : ∀ a, (rule a).shown outer = [node a])
    (a : Option α) :
    shownAll outer (a.map rule).toList =
      (a.map node).toList := by
  cases a with
  | none => rfl
  | some a =>
      simp only [Option.map_some, Option.toList_some,
        shownAll_cons, hOne, shownAll_nil, List.append_nil]

end RuleTree

------------------------------------------------------------
-- Names And Literals
------------------------------------------------------------

namespace Identifier

/- `name:identifier` -/
def nameRule
    (_ : Identifier) : RuleTree :=
  .leaf (some .name) .identifier

/- `identifier` -/
def rule
    (_ : Identifier) : RuleTree :=
  .leaf none .identifier

/- `type_params?`, which has at least one name. -/
def typeParamRules
    (names : List Identifier) : List RuleTree :=
  RuleTree.around .typeParams (names.map rule)

end Identifier

/- `path`, with all its segments. -/
def Path.rule
    (p : Path) : RuleTree :=
  .named none .path (p.segments.map Identifier.rule)

/- `literal`, with the rule of its sort. -/
def Literal.rule
    (l : Literal) : RuleTree :=
  .named none .literal [.leaf none l.value.nodeKind]

------------------------------------------------------------
-- Types And Patterns
------------------------------------------------------------

namespace Ty

mutual

/- `_type` -/
def rule
    (label : Option FieldName) : Ty → RuleTree
  | path p => .hidden label [p.rule]
  | reference _ inner _ =>
      .hidden label
        [.named none .referenceType [inner.rule none]]
  | tuple elements _ =>
      .hidden label
        [.named none .tupleType (rules elements)]
  | primitive _ _ =>
      .hidden label [.leaf none .primitiveType]

/- `_type` for each element. -/
def rules : List Ty → List RuleTree
  | [] => []
  | ty :: tys => ty.rule none :: rules tys

end

end Ty

namespace Pattern

mutual

/- `_pattern`; the wildcard is just a token. -/
def rule
    (label : Option FieldName) : Pattern → RuleTree
  | identifier name => .hidden label [name.rule]
  | literal l => .hidden label [l.rule]
  | wildcard _ => .hidden label []
  | tupleStruct path elements _ =>
      .hidden label (path.rule :: rules elements)

/- `_pattern` for each element. -/
def rules : List Pattern → List RuleTree
  | [] => []
  | p :: ps => p.rule none :: rules ps

end

end Pattern

------------------------------------------------------------
-- Expressions And Blocks
------------------------------------------------------------

mutual

/- `_expression` -/
def Expression.rule
    (label : Option FieldName) : Expression → RuleTree
  | .literal l => .hidden label [l.rule]
  | .path p => .hidden label [p.rule]
  | .block b => .hidden label [b.rule]
  | .matching m => .hidden label [m.rule]

/- `block_expr` -/
def Block.rule : Block → RuleTree
  | ⟨statements, tail, _⟩ =>
      .named none .blockExpr
        (Block.statementRules statements ++
          Expression.optionRules none tail)

/- `_statement` -/
def Statement.rule : Statement → RuleTree
  | .binding b => .hidden none [b.rule]
  | .expression value _ => .hidden none [value.rule none]

/- `let_statement` -/
def LetBinding.rule : LetBinding → RuleTree
  | ⟨_, name, ty, value, _⟩ =>
      .named none .letStatement
        (name.nameRule ::
          ((ty.map (Ty.rule (some .type))).toList ++
            Expression.optionRules (some .value) value))

/- `match_expr` -/
def Match.rule : Match → RuleTree
  | ⟨value, arms, _⟩ =>
      .named none .matchExpr
        (value.rule (some .value) :: Match.armRules arms)

/- `match_arm` -/
def MatchArm.rule : MatchArm → RuleTree
  | ⟨pattern, value, _⟩ =>
      .named none .matchArm
        [ pattern.rule (some .pattern),
          value.rule (some .value) ]

/- `_statement` for each statement. -/
def Block.statementRules : List Statement → List RuleTree
  | [] => []
  | s :: ss => s.rule :: Block.statementRules ss

/- `match_arm` for each arm. -/
def Match.armRules : List MatchArm → List RuleTree
  | [] => []
  | a :: as => a.rule :: Match.armRules as

/- `_expression?` -/
def Expression.optionRules
    (label : Option FieldName) :
    Option Expression → List RuleTree
  | none => []
  | some e => [e.rule label]

end

------------------------------------------------------------
-- Definitions
------------------------------------------------------------

/- `param` -/
def Param.rule
    (p : Param) : RuleTree :=
  .named none .param
    [p.name.nameRule, p.ty.rule (some .type)]

/- `struct_field` -/
def Field.rule
    (f : Field) : RuleTree :=
  .named none .structField
    [f.name.nameRule, f.ty.rule (some .type)]

/- `params?`, which has at least one parameter. -/
def Function.paramRules
    (params : List Param) : List RuleTree :=
  RuleTree.around .params (params.map Param.rule)

/- `function_def`, whose body is a `block`. -/
def Function.rule
    (f : Function) : RuleTree :=
  .named none .functionDef
    (f.name.nameRule ::
      (Identifier.typeParamRules f.typeParams ++
        paramRules f.params ++
        (f.returnType.map
          (Ty.rule (some .returnType))).toList ++
        [.named none .block [f.body.rule]]))

/- `struct_def`, with `struct_fields` or a semicolon. -/
def Struct.rule
    (s : Struct) : RuleTree :=
  .named none .structDef
    (s.name.nameRule ::
      (Identifier.typeParamRules s.typeParams ++
        (s.fields.map fun fields =>
          .named none .structFields
            (fields.map Field.rule)).toList))

/- `const_def` -/
def Constant.rule
    (c : Constant) : RuleTree :=
  .named none .constDef
    [ c.name.nameRule,
      c.ty.rule (some .type),
      c.value.rule none ]

/- `type_def` -/
def TypeAlias.rule
    (a : TypeAlias) : RuleTree :=
  .named none .typeDef
    (a.name.nameRule ::
      (Identifier.typeParamRules a.typeParams ++
        [a.ty.rule (some .type)]))

/- `trait_def` -/
def Trait.rule
    (t : Trait) : RuleTree :=
  .named none .traitDef
    (t.name.nameRule ::
      (Identifier.typeParamRules t.typeParams ++
        t.functions.map Function.rule))

/- `impl_def` -/
def Impl.rule
    (i : Impl) : RuleTree :=
  .named none .implDef
    (i.ty.rule (some .type) ::
      ((i.traitTy.map (Ty.rule (some .trait))).toList ++
        i.functions.map Function.rule))

mutual

/- `_definition` -/
def Definition.rule : Definition → RuleTree
  | .module m => .hidden none [m.rule]
  | .function f => .hidden none [f.rule]
  | .struct s => .hidden none [s.rule]
  | .constant c => .hidden none [c.rule]
  | .typeAlias a => .hidden none [a.rule]
  | .trait t => .hidden none [t.rule]
  | .impl i => .hidden none [i.rule]

/- `module_def` -/
def Module.rule : Module → RuleTree
  | ⟨name, definitions, _⟩ =>
      .named none .moduleDef
        (name.nameRule :: Module.definitionRules definitions)

/- `_definition` for each definition. -/
def Module.definitionRules :
    List Definition → List RuleTree
  | [] => []
  | d :: ds => d.rule :: Module.definitionRules ds

end

/- `source_file` -/
def SourceFile.rule
    (f : SourceFile) : RuleTree :=
  .named none .sourceFile
    (Module.definitionRules f.definitions)

------------------------------------------------------------
-- What Is Shown Of Names And Literals
------------------------------------------------------------

open RuleTree

/- A name shows one node with its label. -/
@[simp] theorem Identifier.shown_nameRule
    (i : Identifier) :
    i.nameRule.shown none = [i.named] :=
  rfl

/- Without a label it shows the bare node. -/
@[simp] theorem Identifier.shown_rule
    (i : Identifier) :
    i.rule.shown none = [i.bare] :=
  rfl

/-
  Type parameters show one node around their names, or
  nothing.
-/
@[simp] theorem Identifier.shownAll_typeParamRules
    (names : List Identifier) :
    shownAll none (typeParamRules names) =
      typeParamsNamed names := by
  cases names with
  | nil => rfl
  | cons name names =>
      rw [typeParamRules, List.map_cons, around,
        ← List.map_cons, shownAll_cons, shown,
        shownAll_map Identifier.shown_rule]
      · rfl
      · exact List.cons_ne_nil _ _

/- A path shows its node with the label around it. -/
@[simp] theorem Path.shown_rule
    (outer : Option FieldName)
    (p : Path) :
    p.rule.shown outer = [p.named outer] := by
  rw [rule, shown, shownAll_map Identifier.shown_rule]
  rfl

@[simp] theorem Literal.shown_rule
    (outer : Option FieldName)
    (l : Literal) :
    l.rule.shown outer = [l.named outer] :=
  rfl

------------------------------------------------------------
-- What Is Shown Of Types And Patterns
------------------------------------------------------------

mutual

/- A type shows its node, with the label of its rule. -/
@[simp] theorem Ty.shown_rule
    (label : Option FieldName)
    (ty : Ty) :
    (ty.rule label).shown none = [ty.named label] := by
  cases ty with
  | path p => simp [Ty.rule, shown, Ty.named]
  | reference isMut inner span =>
      simp [Ty.rule, shown, Ty.named,
        Ty.shown_rule none inner]
  | tuple elements span =>
      simp [Ty.rule, shown, Ty.named,
        Ty.shownAll_rules elements]
  | primitive kind span =>
      simp [Ty.rule, shown, Ty.named]

/- The types of a list show one node each. -/
theorem Ty.shownAll_rules
    (tys : List Ty) :
    shownAll none (Ty.rules tys) = Ty.namedAll tys := by
  cases tys with
  | nil => rfl
  | cons ty tys =>
      simp [Ty.rules, Ty.namedAll, Ty.shown_rule none ty,
        Ty.shownAll_rules tys]

end

/- A type expression that may be left out. -/
@[simp] theorem Ty.shownAll_map_rule
    (label : Option FieldName)
    (ty : Option Ty) :
    shownAll none (ty.map (rule label)).toList =
      (ty.map (named label)).toList :=
  shownAll_map_toList (Ty.shown_rule label) ty

mutual

/- A pattern inside another one takes the label around. -/
@[simp] theorem Pattern.shown_rule
    (label outer : Option FieldName)
    (p : Pattern) :
    (p.rule label).shown outer =
      p.named (label.or outer) := by
  cases p with
  | identifier name => rfl
  | literal l => simp [Pattern.rule, shown, Pattern.named]
  | wildcard span => rfl
  | tupleStruct path elements span =>
      simp [Pattern.rule, shown, Pattern.named,
        Pattern.shownAll_rules (label.or outer) elements]

/- The patterns of a list all take the label around them. -/
theorem Pattern.shownAll_rules
    (outer : Option FieldName)
    (ps : List Pattern) :
    shownAll outer (Pattern.rules ps) =
      Pattern.namedAll outer ps := by
  cases ps with
  | nil => rfl
  | cons p ps =>
      simp [Pattern.rules, Pattern.namedAll,
        Pattern.shown_rule none outer p,
        Pattern.shownAll_rules outer ps]

end

------------------------------------------------------------
-- What Is Shown Of Expressions And Blocks
------------------------------------------------------------

mutual

/-
  An expression shows its node, with the label of its rule.
-/
@[simp] theorem Expression.shown_rule
    (label : Option FieldName)
    (e : Expression) :
    (e.rule label).shown none = [e.named label] := by
  cases e with
  | literal l =>
      simp [Expression.rule, shown, Expression.named]
  | path p =>
      simp [Expression.rule, shown, Expression.named]
  | block b =>
      simp [Expression.rule, shown, Expression.named,
        Block.shown_rule label b]
  | matching m =>
      simp [Expression.rule, shown, Expression.named,
        Match.shown_rule label m]

/- A block shows its node with the label around it. -/
@[simp] theorem Block.shown_rule
    (outer : Option FieldName)
    (b : Block) :
    b.rule.shown outer = [b.named outer] := by
  rcases b with ⟨statements, tail, span⟩
  simp [Block.rule, shown, Block.named,
    Block.shownAll_statementRules statements,
    Expression.shownAll_optionRules none tail]

/- A statement shows its node. -/
theorem Statement.shown_rule
    (s : Statement) :
    s.rule.shown none = [s.named] := by
  cases s with
  | binding b =>
      simp [Statement.rule, shown, Statement.named,
        LetBinding.shown_rule b]
  | expression value span =>
      simp [Statement.rule, shown, Statement.named,
        Expression.shown_rule none value]

/-
  A binding shows its node, with its type and its value if
  they are there.
-/
theorem LetBinding.shown_rule
    (b : LetBinding) :
    b.rule.shown none = [b.named] := by
  rcases b with ⟨isMut, name, ty, value, span⟩
  simp [LetBinding.rule, shown, LetBinding.named,
    Expression.shownAll_optionRules (some .value) value]

/- A match shows its node with the label around it. -/
theorem Match.shown_rule
    (outer : Option FieldName)
    (m : Match) :
    m.rule.shown outer = [m.named outer] := by
  rcases m with ⟨value, arms, span⟩
  simp [Match.rule, shown, Match.named,
    Expression.shown_rule (some .value) value,
    Match.shownAll_armRules arms]

theorem MatchArm.shown_rule
    (a : MatchArm) :
    a.rule.shown none = [a.named] := by
  rcases a with ⟨pattern, value, span⟩
  simp [MatchArm.rule, shown, MatchArm.named,
    Expression.shown_rule (some .value) value]

/- The statements of a list show one node each. -/
theorem Block.shownAll_statementRules
    (ss : List Statement) :
    shownAll none (Block.statementRules ss) =
      Block.namedStatements ss := by
  cases ss with
  | nil => rfl
  | cons s ss =>
      simp [Block.statementRules, Block.namedStatements,
        Statement.shown_rule s,
        Block.shownAll_statementRules ss]

/- The arms of a list show one node each. -/
theorem Match.shownAll_armRules
    (arms : List MatchArm) :
    shownAll none (Match.armRules arms) =
      Match.namedArms arms := by
  cases arms with
  | nil => rfl
  | cons a arms =>
      simp [Match.armRules, Match.namedArms,
        MatchArm.shown_rule a, Match.shownAll_armRules arms]

/- An expression that is missing shows nothing. -/
theorem Expression.shownAll_optionRules
    (label : Option FieldName)
    (e : Option Expression) :
    shownAll none (Expression.optionRules label e) =
      Expression.namedOption label e := by
  cases e with
  | none => rfl
  | some e =>
      simp [Expression.optionRules, Expression.namedOption,
        Expression.shown_rule label e]

end

------------------------------------------------------------
-- What Is Shown Of Definitions
------------------------------------------------------------

/- A parameter shows its node. -/
@[simp] theorem Param.shown_rule
    (p : Param) :
    p.rule.shown none = [p.named] := by
  simp [rule, shown, named]

@[simp] theorem Field.shown_rule
    (f : Field) :
    f.rule.shown none = [f.named] := by
  simp [rule, shown, named]

/- Parameters show one node around them, or nothing. -/
@[simp] theorem Function.shownAll_paramRules
    (params : List Param) :
    shownAll none (paramRules params) =
      paramsNamed params := by
  cases params with
  | nil => rfl
  | cons p params =>
      rw [paramRules, List.map_cons, around,
        ← List.map_cons, shownAll_cons, shown,
        shownAll_map Param.shown_rule]
      · rfl
      · exact List.cons_ne_nil _ _

@[simp] theorem Function.shown_rule
    (f : Function) :
    f.rule.shown none = [f.named] := by
  simp [rule, shown, named]

/-
  A struct shows its node, with its fields if it has them.
-/
@[simp] theorem Struct.shown_rule
    (s : Struct) :
    s.rule.shown none = [s.named] := by
  rcases s with ⟨isPub, name, typeParams, fields, span⟩
  cases fields with
  | none => simp [rule, shown, named]
  | some fields =>
      simp [rule, shown, named,
        shownAll_map Field.shown_rule]

@[simp] theorem Constant.shown_rule
    (c : Constant) :
    c.rule.shown none = [c.named] := by
  simp [rule, shown, named]

/- A type alias shows its node. -/
@[simp] theorem TypeAlias.shown_rule
    (a : TypeAlias) :
    a.rule.shown none = [a.named] := by
  simp [rule, shown, named]

@[simp] theorem Trait.shown_rule
    (t : Trait) :
    t.rule.shown none = [t.named] := by
  simp [rule, shown, named,
    shownAll_map Function.shown_rule]

/- An implementation shows its node. -/
@[simp] theorem Impl.shown_rule
    (i : Impl) :
    i.rule.shown none = [i.named] := by
  simp [rule, shown, named,
    shownAll_map Function.shown_rule]

mutual

/- A definition shows the node of its form. -/
theorem Definition.shown_rule
    (d : Definition) :
    d.rule.shown none = [d.named] := by
  cases d with
  | module m =>
      simp [Definition.rule, shown, Definition.named,
        Module.shown_rule m]
  | _ => simp [Definition.rule, shown, Definition.named]

theorem Module.shown_rule
    (m : Module) :
    m.rule.shown none = [m.named] := by
  rcases m with ⟨name, definitions, span⟩
  simp [Module.rule, shown, Module.named,
    Module.shownAll_definitionRules definitions]

/- The definitions of a list show one node each. -/
theorem Module.shownAll_definitionRules
    (ds : List Definition) :
    shownAll none (Module.definitionRules ds) =
      Module.namedDefinitions ds := by
  cases ds with
  | nil => rfl
  | cons d ds =>
      simp [Module.definitionRules, Module.namedDefinitions,
        Definition.shown_rule d,
        Module.shownAll_definitionRules ds]

end

/- What is shown of a file is its named tree. -/
theorem SourceFile.shown_rule
    (f : SourceFile) :
    f.rule.shown none = [f.named] := by
  rw [rule, shown, Module.shownAll_definitionRules]
  rfl

end FeSyntax
