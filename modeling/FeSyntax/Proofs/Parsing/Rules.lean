import FeSyntax.Proofs.Parsing.Agreement

/-
  This file writes the grammar as one system of equations.
  A rule is a parser that takes a level of nesting, and its
  body is that parser with the parsers of all rules left
  open.  With one level more, every rule is its body over
  the rules as they were.  A body runs a rule behind a token
  only, but for the block that is an expression.

  Key definitions include:
    * `Parser.Rule`
    * `Parser.RuleParsers`
    * `Parser.Rule.parser`
    * `Parser.Rule.body`

  Key theorems include:
    * `Parser.Rule.parser_succ`
    * `Parser.Rule.body_eq_of_agreesBehind`
-/

namespace FeSyntax

namespace Parser

------------------------------------------------------------
-- Rules
------------------------------------------------------------

/-
  The rules of the grammar, each of which takes a level.  A
  function is one as a member of a trait or an impl, behind
  its optional `pub`.
-/
inductive Rule where
  | ty
  | pattern
  | expression
  | block
  | function (visibility : Option Span)
  | definition
deriving DecidableEq, Repr

namespace Rule

/- What a rule makes of its tokens. -/
abbrev Result : Rule → Type
  | ty => Ty
  | pattern => Pattern
  | expression => Expression
  | block => Block
  | function _ => Function
  | definition => Definition

end Rule

/- A parser for each rule. -/
abbrev RuleParsers : Type :=
  (r : Rule) → Parser r.Result

/- The parsers of the rules with a number of levels left. -/
def Rule.parser
    (levels : Nat) : RuleParsers
  | .ty => Parser.ty levels
  | .pattern => Parser.pattern levels
  | .expression => Parser.expression levels
  | .block => Parser.block levels
  | .function visibility =>
      nestedFunction levels visibility
  | .definition => Parser.definition levels

------------------------------------------------------------
-- Bodies Of Functions
------------------------------------------------------------

/-
  A parser whose name ends in `With` is the parser without
  that word in its name, with the rules that it runs given
  by `parsers`.
-/
section Bodies

variable (parsers : RuleParsers)

def paramWith : Parser Param := do
  let name ← identifier
  let _ ← punct .colon
  let ty ← parsers .ty
  pure ⟨name, ty, name.span.through ty.span⟩

def functionWith
    (visibility : Option Span) : Parser Function := do
  let start ← keyword .fnKw
  let name ← identifier
  let typeParams ← typeParams
  let _ ← punct .leftParen
  let (params, _) ←
    commaList .rightParen (paramWith parsers)
  let returnType ←
    whenAt (.punct .arrow) do
      let _ ← punct .arrow
      parsers .ty
  let body ← parsers .block
  pure
    { isPub := visibility.isSome
      name, typeParams, params, returnType, body
      span := (visibility.getD start).through body.span }

def memberFunctionWith : Parser Function := do
  let visibility ← keyword? .pubKw
  if ← isAt (.keyword .fnKw) then
    parsers (.function visibility)
  else
    fail (.expected (.keyword .fnKw))

def functionListWith :
    Parser (List Function × Span) := do
  let _ ← punct .leftBrace
  itemsUntil .rightBrace (memberFunctionWith parsers)

------------------------------------------------------------
-- Bodies Of Definitions
------------------------------------------------------------

def fieldWith : Parser Field := do
  let visibility ← keyword? .pubKw
  let name ← identifier
  let _ ← punct .colon
  let ty ← parsers .ty
  let start := visibility.getD name.span
  pure ⟨visibility.isSome, name, ty, start.through ty.span⟩

def structBodyWith :
    Parser (Option (List Field) × Span) := do
  match ← peek with
  | some (.punct .semicolon) =>
      let stop ← punct .semicolon
      pure (none, stop)
  | some (.punct .leftBrace) =>
      let _ ← punct .leftBrace
      let (fields, stop) ←
        commaList .rightBrace (fieldWith parsers)
      pure (some fields, stop)
  | _ => fail (.expected .structBody)

def structWith
    (visibility : Option Span) : Parser Struct := do
  let start ← keyword .structKw
  let name ← identifier
  let typeParams ← typeParams
  let (fields, stop) ← structBodyWith parsers
  pure
    { isPub := visibility.isSome
      name, typeParams, fields
      span := (visibility.getD start).through stop }

def constantWith
    (visibility : Option Span) : Parser Constant := do
  let start ← keyword .constKw
  let name ← identifier
  let _ ← punct .colon
  let ty ← parsers .ty
  let _ ← punct .equals
  let value ← parsers .expression
  let stop ← punct .semicolon
  pure
    { isPub := visibility.isSome
      name, ty, value
      span := (visibility.getD start).through stop }

def typeAliasWith
    (visibility : Option Span) : Parser TypeAlias := do
  let start ← keyword .typeKw
  let name ← identifier
  let typeParams ← typeParams
  let _ ← punct .equals
  let ty ← parsers .ty
  let stop ← punct .semicolon
  pure
    { isPub := visibility.isSome
      name, typeParams, ty
      span := (visibility.getD start).through stop }

def traitWith
    (visibility : Option Span) : Parser Trait := do
  let start ← keyword .traitKw
  let name ← identifier
  let typeParams ← typeParams
  let (functions, stop) ← functionListWith parsers
  pure
    { isPub := visibility.isSome
      name, typeParams, functions
      span := (visibility.getD start).through stop }

def implWith : Parser Impl := do
  let start ← keyword .implKw
  let implTy ← parsers .ty
  let traitTy ←
    whenAt (.keyword .forKw) do
      let _ ← keyword .forKw
      parsers .ty
  let (functions, stop) ← functionListWith parsers
  pure ⟨implTy, traitTy, functions, start.through stop⟩

def definitionWith : Parser Definition := do
  let visibility ← keyword? .pubKw
  match visibility, ← peek with
  | none, some (.keyword .modKw) =>
      .module <$> moduleOf (parsers .definition)
  | none, some (.keyword .implKw) =>
      .impl <$> implWith parsers
  | _, some (.keyword .fnKw) =>
      .function <$> functionWith parsers visibility
  | _, some (.keyword .traitKw) =>
      .trait <$> traitWith parsers visibility
  | _, some (.keyword .structKw) =>
      .struct <$> structWith parsers visibility
  | _, some (.keyword .constKw) =>
      .constant <$> constantWith parsers visibility
  | _, some (.keyword .typeKw) =>
      .typeAlias <$> typeAliasWith parsers visibility
  | some _, _ => fail (.expected .publicDefinition)
  | none, _ => fail (.expected .definition)

end Bodies

/- A rule whose parts are parsed by `parsers`. -/
def Rule.body
    (parsers : RuleParsers) : RuleParsers
  | .ty => tyOf (parsers .ty)
  | .pattern => patternOf (parsers .pattern)
  | .expression =>
      expressionOf (parsers .expression) (parsers .block)
        (parsers .pattern)
  | .block => blockOf (parsers .expression) (parsers .ty)
  | .function visibility => functionWith parsers visibility
  | .definition => definitionWith parsers

/- The levels count how often the bodies are unfolded. -/
theorem Rule.parser_succ
    (n : Nat)
    (r : Rule) :
    r.parser (n + 1) = r.body (Rule.parser n) := by
  cases r with
  | ty => rfl
  | pattern => rfl
  | expression =>
      unfold Rule.parser Rule.body
      rw [Parser.expression]
  | block =>
      unfold Rule.parser Rule.body
      rw [Parser.block]
  | function visibility => rfl
  | definition => rfl

------------------------------------------------------------
-- Where Rules Are Run
------------------------------------------------------------

section Agreement

variable {k n : Nat}
variable {ts : List Token}
variable {others : RuleParsers}
variable
  (hOthers :
    ∀ r : Rule,
      (r.parser n).AgreesBehind (k + 1) ts (others r))

include hOthers

/-
  A type behind the token that leads to it starts behind
  that token.
-/
theorem leadingTy_agreesBehind
    {lead : Parser Span}
    (hLead : lead.Passes 1 0) :
    (do let _ ← lead; Parser.ty n).AgreesBehind (k + 1) ts
      (do let _ ← lead; others .ty) :=
  .after hLead fun _ => hOthers .ty

/- The parts of a function start behind its keyword. -/
theorem function_agreesBehind
    (visibility : Option Span) :
    (function n visibility).AgreesBehind k ts
      (functionWith others visibility) := by
  have hParam :
      (param n).AgreesBehind (k + 1) ts
        (paramWith others) :=
    .after .identifier fun _ => .after (.punct _) fun _ =>
      (hOthers .ty).before _
  have hParams :=
    hParam.commaList (param_passes n) .rightParen
  have hReturn :=
    (leadingTy_agreesBehind hOthers
      (.punct .arrow)).whenAt (.punct .arrow)
  have hParamsPasses :=
    (param_passes n).commaList .rightParen
  have hReturnPasses :=
    (leadingTy_passes (n := n)
      (Passes.punct .arrow)).whenAt (.punct .arrow)
  exact .behind (.keyword _) fun _ =>
    .after .identifier fun _ => .after .typeParams fun _ =>
      .after (.punct _) fun _ =>
        hParams.next hParamsPasses fun _ =>
          hReturn.next hReturnPasses fun _ =>
            (hOthers .block).before _

/- The functions of a list start behind its brace. -/
theorem functionList_agreesBehind :
    (functionList n).AgreesBehind (k + 1) ts
      (functionListWith others) := by
  have hIsFn : (isAt (.keyword .fnKw)).Passes 0 0 :=
    Passes.peek.first fun _ => .pure _
  have hMember :
      (memberFunction n).AgreesBehind (k + 1) ts
        (memberFunctionWith others) := by
    refine .after (.keyword? _) fun v =>
      .after hIsFn fun isThere => ?_
    cases isThere with
    | false => exact .refl _
    | true => exact hOthers (.function v)
  exact .after (.punct _) fun _ =>
    hMember.itemsUntil (memberFunction_passes n) .rightBrace

/- The fields of a struct start behind its brace. -/
theorem structBody_agreesBehind :
    (structBody n).AgreesBehind (k + 1) ts
      (structBodyWith others) := by
  have hField :
      (field n).AgreesBehind (k + 1) ts
        (fieldWith others) :=
    .after (.keyword? _) fun _ =>
      .after .identifier fun _ => .after (.punct _) fun _ =>
        (hOthers .ty).before _
  have hFields :=
    hField.commaList (field_passes n) .rightBrace
  refine .after .peek fun next => ?_
  cases next with
  | none => exact .refl _
  | some kind =>
      cases kind with
      | punct mark =>
          cases mark with
          | leftBrace =>
              exact .after (.punct _) fun _ =>
                hFields.before _
          | _ => exact .refl _
      | _ => exact .refl _

/- The body of a struct starts behind its keyword. -/
theorem struct_agreesBehind
    (visibility : Option Span) :
    (struct n visibility).AgreesBehind k ts
      (structWith others visibility) :=
  .behind (.keyword _) fun _ => .after .identifier fun _ =>
    .after .typeParams fun _ =>
      (structBody_agreesBehind hOthers).before _

/-
  The type and the value of a constant start behind its
  keyword.
-/
theorem constant_agreesBehind
    (visibility : Option Span) :
    (constant n visibility).AgreesBehind k ts
      (constantWith others visibility) :=
  .behind (.keyword _) fun _ => .after .identifier fun _ =>
    .after (.punct _) fun _ =>
      (hOthers .ty).next (ty_passes n) fun _ =>
        .after (.punct _) fun _ =>
          (hOthers .expression).before _

/- The type of an alias starts behind its keyword. -/
theorem typeAlias_agreesBehind
    (visibility : Option Span) :
    (typeAlias n visibility).AgreesBehind k ts
      (typeAliasWith others visibility) :=
  .behind (.keyword _) fun _ => .after .identifier fun _ =>
    .after .typeParams fun _ => .after (.punct _) fun _ =>
      (hOthers .ty).before _

/- The functions of a trait start behind its keyword. -/
theorem trait_agreesBehind
    (visibility : Option Span) :
    (trait n visibility).AgreesBehind k ts
      (traitWith others visibility) :=
  .behind (.keyword _) fun _ => .after .identifier fun _ =>
    .after .typeParams fun _ =>
      (functionList_agreesBehind hOthers).before _

/-
  The types and functions of an implementation start behind
  its keyword.
-/
theorem impl_agreesBehind :
    (impl n).AgreesBehind k ts (implWith others) := by
  have hTrait :=
    (leadingTy_agreesBehind hOthers
      (.keyword .forKw)).whenAt (.keyword .forKw)
  have hTraitPasses :=
    (leadingTy_passes (n := n)
      (Passes.keyword .forKw)).whenAt (.keyword .forKw)
  exact .behind (.keyword _) fun _ =>
    (hOthers .ty).next (ty_passes n) fun _ =>
      hTrait.next hTraitPasses fun _ =>
        (functionList_agreesBehind hOthers).before _

/-
  The definitions inside a module start behind its brace.
-/
theorem module_agreesBehind :
    (moduleOf (Parser.definition n)).AgreesBehind k ts
      (moduleOf (others .definition)) := by
  have hItem :
      (moduleItem (Parser.definition n)).AgreesBehind
        (k + 1) ts (moduleItem (others .definition)) := by
    refine .after .peek fun next => ?_
    cases next with
    | none => exact .refl _
    | some kind => exact hOthers .definition
  have hItemPasses :=
    moduleItem_passes (definition_passes n)
  exact .behind (.keyword _) fun _ =>
    .after .identifier fun _ => .after (.punct _) fun _ =>
      (hItem.itemsUntil hItemPasses .rightBrace).before _

/-
  Whichever form a definition has, its parts start behind
  its keyword.
-/
theorem definition_agreesBehind :
    (Parser.definition (n + 1)).AgreesBehind k ts
      (definitionWith others) := by
  refine .after (.keyword? _) fun v =>
    .after .peek fun next => ?_
  cases next with
  | none => cases v <;> exact .refl _
  | some kind =>
      cases kind with
      | keyword word =>
          cases word with
          | modKw =>
              cases v with
              | none =>
                  exact (module_agreesBehind hOthers).map _
              | some span => exact .refl _
          | implKw =>
              cases v with
              | none =>
                  exact (impl_agreesBehind hOthers).map _
              | some span => exact .refl _
          | fnKw =>
              cases v <;>
                exact
                  (function_agreesBehind hOthers _).map _
          | traitKw =>
              cases v <;>
                exact (trait_agreesBehind hOthers _).map _
          | structKw =>
              cases v <;>
                exact (struct_agreesBehind hOthers _).map _
          | constKw =>
              cases v <;>
                exact
                  (constant_agreesBehind hOthers _).map _
          | typeKw =>
              cases v <;>
                exact
                  (typeAlias_agreesBehind hOthers _).map _
          | _ => cases v <;> exact .refl _
      | _ => cases v <;> exact .refl _

end Agreement

/- A place behind no token is the place where one starts. -/
theorem AgreesBehind.of_eq
    {α : Type}
    {ts : List Token}
    {p q : Parser α}
    (hStart : q ts = p ts)
    (hBehind : p.AgreesBehind 1 ts q) :
    p.AgreesBehind 0 ts q := by
  intro us hUs
  rcases hUs with ⟨used, rfl, -, hProper⟩
  cases used with
  | nil => exact hStart
  | cons t used =>
      exact hBehind us
        ⟨t :: used, rfl, by simp, hProper⟩

/-
  What a rule makes of `ts` is told by what the rules make
  of the tokens behind the first one, and for an expression
  by what the rule of blocks makes of `ts` as well.
-/
theorem Rule.body_eq_of_agreesBehind
    {n : Nat}
    {ts : List Token}
    {others : RuleParsers}
    {r : Rule}
    (hBehind :
      ∀ r : Rule,
        (r.parser n).AgreesBehind 1 ts (others r))
    (hBlock :
      r = .expression →
        others .block ts = Rule.parser n .block ts) :
    r.body others ts = r.parser (n + 1) ts := by
  have hStart : Advances 0 ts ts := .refl ts
  rw [Rule.parser_succ]
  cases r with
  | ty =>
      exact tyOf_agreesBehind (ty_passes n)
        (hBehind .ty) ts hStart
  | pattern =>
      exact patternOf_agreesBehind (pattern_passes n)
        (hBehind .pattern) ts hStart
  | expression =>
      have hThere := AgreesBehind.of_eq (hBlock rfl)
        (hBehind .block)
      exact expressionOf_agreesBehind (expression_passes n)
        (pattern_passes n) (hBehind .expression) hThere
        (hBehind .pattern) ts hStart
  | block =>
      exact blockOf_agreesBehind (expression_passes n)
        (ty_passes n) (hBehind .expression) (hBehind .ty)
        ts hStart
  | function visibility =>
      exact function_agreesBehind hBehind visibility ts
        hStart
  | definition =>
      exact definition_agreesBehind hBehind ts hStart

end Parser

end FeSyntax
