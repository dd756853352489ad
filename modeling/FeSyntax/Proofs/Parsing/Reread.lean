import FeSyntax.Proofs.Parsing.Deepen
import FeSyntax.Proofs.Parsing.OwnershipDefinition
import FeSyntax.Proofs.Parsing.ReplayDefinition

/-
  This file says that the nodes of what a parser gives can
  be parsed again from their own tokens.  The parser of the
  whole has run the parser of such a node with fewer levels,
  and the tokens that this has passed are those of the node.

  Key definitions include:
    * `Parser.ReadsAgain`
    * `Node.ReadsAgain`
    * `Outline.ReadsAgain`
    * `Parser.Gives`

  Key theorems include:
    * `Parser.readsAgain_of_done`
    * `Parser.Gives.bind`
    * `Parser.Gives.collect`
    * `Parser.Gives.root`
-/

namespace FeSyntax

open Placed

------------------------------------------------------------
-- Nodes That Can Be Parsed Again
------------------------------------------------------------

/-
  Some of the tokens, one behind the other, are what `span`
  encloses, and the parser reads them as `a` wherever they
  stand alone.
-/
def Parser.ReadsAgain
    {α : Type}
    [Placed α]
    (p : Parser α)
    (all : List Token)
    (span : Span)
    (a : α) : Prop :=
  ∃ part, part <:+: all ∧ span.Encloses part ∧
    ∀ r : Relocation,
      p (part.map r.token) = .done (move r a) []

/-
  The nodes with a parser of their own are read again by
  that parser; a function is read as a definition.
-/
def Node.ReadsAgain
    (limit : Nat)
    (all : List Token) : Node → Prop
  | definition d =>
      (Parser.definition limit).ReadsAgain all d.span d
  | function f =>
      (Parser.definition limit).ReadsAgain all f.span
        (.function f)
  | ty t => (Parser.ty limit).ReadsAgain all t.span t
  | expression e =>
      (Parser.expression limit).ReadsAgain all e.span e
  | pattern p =>
      (Parser.pattern limit).ReadsAgain all p.span p
  | _ => True

/- All nodes of an outline are read again. -/
def Outline.ReadsAgain
    (limit : Nat)
    (all : List Token)
    (o : Outline) : Prop :=
  ∀ n ∈ o.nodes, n.ReadsAgain limit all

/- All nodes below the one of an outline are read again. -/
def Outline.PartsReadAgain
    (limit : Nat)
    (all : List Token) : Outline → Prop
  | node _ children =>
      ∀ o ∈ children, o.ReadsAgain limit all

section Outlines

variable {limit : Nat}
variable {all : List Token}

/-
  The walk over several outlines is the walks over each of
  them.
-/
theorem Outline.mem_walkAll
    {n : Node}
    {descend : Node → Bool}
    {os : List Outline} :
    n ∈ walkAll descend os ↔
      ∃ o ∈ os, n ∈ o.walk descend := by
  induction os with
  | nil => simp [walkAll]
  | cons o os ih => simp [walkAll, ih]

/-
  The parts of a node are read again if its children are,
  with all below them.
-/
@[simp] theorem Outline.partsReadAgain_node
    {n : Node}
    {children : List Outline} :
    (node n children).PartsReadAgain limit all ↔
      ∀ o ∈ children, o.ReadsAgain limit all :=
  Iff.rfl

/-
  An outline is read again if its own node and its parts
  are.
-/
theorem Outline.readsAgain_iff
    {o : Outline} :
    o.ReadsAgain limit all ↔
      o.root.ReadsAgain limit all ∧
        o.PartsReadAgain limit all := by
  rcases o with ⟨n, children⟩
  simp only [ReadsAgain, PartsReadAgain, nodes, walk, root,
    if_true, List.forall_mem_cons, mem_walkAll]
  refine and_congr_right fun _ => ?_
  constructor
  · exact fun hAll o hMem m hBelow =>
      hAll m ⟨o, hMem, hBelow⟩
  · rintro hAll m ⟨o, hMem, hBelow⟩
    exact hAll o hMem m hBelow

/- That is, if its node and its children are. -/
@[simp] theorem Outline.readsAgain_node
    {n : Node}
    {children : List Outline} :
    (node n children).ReadsAgain limit all ↔
      n.ReadsAgain limit all ∧
        ∀ o ∈ children, o.ReadsAgain limit all :=
  readsAgain_iff

/- A name has no parser of its own to be read again by. -/
@[simp] theorem Identifier.readsAgain_outline
    (i : Identifier) :
    i.outline.ReadsAgain limit all := by
  simp [outline, Outline.leaf, Node.ReadsAgain]

/- Neither has a path, nor its segments. -/
@[simp] theorem Path.readsAgain_outline
    (p : Path) :
    p.outline.ReadsAgain limit all := by
  simp [outline, Node.ReadsAgain]

@[simp] theorem Literal.readsAgain_outline
    (l : Literal) :
    l.outline.ReadsAgain limit all := by
  simp [outline, Outline.leaf, Node.ReadsAgain]

end Outlines

------------------------------------------------------------
-- Parsers That Give Such Nodes
------------------------------------------------------------

namespace Parser

variable {α β : Type}

/-
  At a place of the tokens `all`, the parser goes to a later
  place, with a value that is `good`.
-/
def Gives
    (all : List Token)
    (good : α → Prop)
    (p : Parser α) : Prop :=
  ∀ ⦃ts rest a⦄, ts <:+ all → p ts = .done a rest →
    rest <:+ all ∧ good a

/-
  What a parser has read with some levels can be read with
  all of them, from its own tokens.
-/
theorem readsAgain_of_done
    [Placed α]
    {p : Nat → Parser α}
    {n limit : Nat}
    {looks : Bool}
    {span : α → Span}
    {all ts rest : List Token}
    {a : α}
    (hReplays : ∀ r, (p n).Replays r true looks (p n))
    (hUses : (p n).Uses fun a run => (span a).Encloses run)
    (hDeepens : (p n).Deepens (p limit))
    (hPlace : ts <:+ all)
    (hDone : p n ts = .done a rest) :
    (p limit).ReadsAgain all (span a) a := by
  rcases hUses hDone with ⟨part, rfl, hEncloses⟩
  refine ⟨part, ?_, hEncloses, fun r => ?_⟩
  · exact
      (List.prefix_append part rest).isInfix.trans
        hPlace.isInfix
  · rcases hReplays r hDone with ⟨run, hRun, -, hSame⟩
    have hPart : part = run := List.append_cancel_right hRun
    have hAlone := hSame [] fun _ => .inl rfl
    rw [← hPart, List.append_nil] at hAlone
    rcases hDeepens (part.map r.token) with
      ⟨_, hDeep⟩ | hLevels
    · rw [hDeep] at hAlone
      cases hAlone
    · rw [hLevels, hAlone]

namespace Gives

variable {all : List Token}
variable {good : α → Prop}
variable {goodNext : β → Prop}

theorem pure
    {a : α}
    (hGood : good a) :
    (Pure.pure a : Parser α).Gives all good := by
  intro ts rest b hPlace hDone
  cases hDone
  exact ⟨hPlace, hGood⟩

theorem fail
    (fault : Fault) :
    (Parser.fail fault : Parser α).Gives all good := by
  intro ts rest a hPlace hDone
  cases hDone

/-
  Behind the place that the first parser goes to, the second
  one gives what it does.
-/
theorem bind
    {p : Parser α}
    {f : α → Parser β}
    (hParser : p.Gives all good)
    (hNext : ∀ a, good a → (f a).Gives all goodNext) :
    (p >>= f).Gives all goodNext := by
  intro ts rest b hPlace hDone
  rcases bind_eq_done.mp hDone with ⟨a, mid, hRun, hRest⟩
  rcases hParser hPlace hRun with ⟨hLater, hGood⟩
  exact hNext a hGood hLater hRest

/- What comes first has no node of its own. -/
theorem skip
    {used : α → List Token → Prop}
    {p : Parser α}
    {f : α → Parser β}
    (hParser : p.Uses used)
    (hNext : ∀ a, (f a).Gives all goodNext) :
    (p >>= f).Gives all goodNext := by
  intro ts rest b hPlace hDone
  rcases bind_eq_done.mp hDone with ⟨a, mid, hRun, hRest⟩
  rcases hParser hRun with ⟨run, rfl, -⟩
  exact
    hNext a ((List.suffix_append run mid).trans hPlace)
      hRest

/- What is known of a value can be weakened. -/
theorem mono
    {good' : α → Prop}
    {p : Parser α}
    (hParser : p.Gives all good)
    (hGood : ∀ a, good a → good' a) :
    p.Gives all good' := by
  intro ts rest a hPlace hDone
  rcases hParser hPlace hDone with ⟨hLater, hValue⟩
  exact ⟨hLater, hGood a hValue⟩

/- A function of the value stays at the place. -/
theorem map
    {p : Parser α}
    {f : α → β}
    (hParser : p.Gives all good)
    (hValue : ∀ a, good a → goodNext (f a)) :
    (f <$> p).Gives all goodNext :=
  hParser.bind fun a hGood => pure (hValue a hGood)

/-
  If the function gives good values only, nothing need be
  known of its argument.
-/
theorem skipMap
    {used : α → List Token → Prop}
    {p : Parser α}
    {f : α → β}
    (hParser : p.Uses used)
    (hValue : ∀ a, goodNext (f a)) :
    (f <$> p).Gives all goodNext :=
  skip hParser fun a => pure (hValue a)

/- To look at the next token is to stay at the place. -/
theorem peek_bind
    {f : Option TokenKind → Parser α}
    (hNext : ∀ next, (f next).Gives all good) :
    (peek >>= f).Gives all good :=
  fun _ _ _ hPlace hDone => hNext _ hPlace hDone

/- To ask for the next kind is to stay there too. -/
theorem isAt_bind
    {kind : TokenKind}
    {f : Bool → Parser α}
    (hNext : ∀ b, (f b).Gives all good) :
    (isAt kind >>= f).Gives all good :=
  fun _ _ _ hPlace hDone => hNext _ hPlace hDone

/- A part that may be missing is good if it is there. -/
theorem whenAt
    {kind : TokenKind}
    {p : Parser α}
    (hPart : p.Gives all good) :
    (Parser.whenAt kind p).Gives all fun o =>
      ∀ a ∈ o, good a := by
  refine isAt_bind fun isThere => ?_
  cases isThere with
  | false => exact pure nofun
  | true =>
      refine map hPart fun a hGood b hMem => ?_
      cases hMem
      exact hGood

------------------------------------------------------------
-- Lists
------------------------------------------------------------

/-
  The items of a repetition are good, and so is its last
  part.
-/
theorem collect
    {missing : Expectation}
    {step : Parser (α ⊕ β)}
    (hStep : step.Gives all (Sum.elim good goodNext)) :
    (Parser.collect missing step).Gives all fun parts =>
      (∀ a ∈ parts.1, good a) ∧ goodNext parts.2 := by
  intro ts rest parts hPlace hDone
  rcases parts with ⟨as, b⟩
  have hSteps := (collect_eq_done.mp hDone).2
  clear hDone
  induction hSteps with
  | last hRun =>
      rcases hStep hPlace hRun with ⟨hLater, hGood⟩
      exact ⟨hLater, nofun, hGood⟩
  | item hRun hSteps ih =>
      rcases hStep hPlace hRun with ⟨hLater, hGood⟩
      rcases ih hLater with ⟨hEnd, hItems, hLast⟩
      exact
        ⟨hEnd, List.forall_mem_cons.mpr ⟨hGood, hItems⟩,
          hLast⟩

section Lists

variable {item : Parser α}
variable {mark close : Punct}
variable (hItem : item.Gives all good)

include hItem

/- Items up to a closing mark are good. -/
theorem itemsUntil :
    (Parser.itemsUntil close item).Gives all fun parts =>
      ∀ a ∈ parts.1, good a := by
  have hStep :
      (untilStep close item).Gives all
        (Sum.elim good fun _ => True) := by
    refine skip (Uses.punct close).whenAt fun o => ?_
    cases o with
    | none => exact hItem.map fun a hGood => hGood
    | some span => exact pure trivial
  exact (collect hStep).mono fun parts hGood => hGood.1

/- So are items between commas. -/
theorem commaItems :
    (Parser.commaItems item).Gives all fun as =>
      ∀ a ∈ as, good a := by
  have hStep :
      (afterStep .comma item).Gives all
        (Sum.elim good fun _ => True) := by
    refine skip (Uses.punct .comma).whenAt fun o => ?_
    cases o with
    | none => exact pure trivial
    | some span => exact hItem.map fun a hGood => hGood
  have hMore :
      (itemsAfter .comma item).Gives all fun as =>
        ∀ a ∈ as, good a :=
    (collect hStep).bind fun parts hGood => pure hGood.1
  exact hItem.bind fun first hFirst =>
    hMore.bind fun more hRest =>
      pure (List.forall_mem_cons.mpr ⟨hFirst, hRest⟩)

/- So are the items of a list that is closed by a mark. -/
theorem commaList :
    (Parser.commaList close item).Gives all fun parts =>
      ∀ a ∈ parts.1, good a := by
  refine skip (Uses.punct close).whenAt fun o => ?_
  cases o with
  | none =>
      exact (commaItems hItem).bind fun as hAll =>
        skip (Uses.punct close) fun _ => pure hAll
  | some span => exact pure nofun

end Lists

end Gives

------------------------------------------------------------
-- Nodes With Parsers Of Their Own
------------------------------------------------------------

/-
  The node of a value is read again, because its parser has
  read it, and the nodes below it are.
-/
theorem Gives.root
    {limit : Nat}
    {all : List Token}
    {outline : α → Outline}
    {p : Parser α}
    (hParts :
      p.Gives all fun a =>
        (outline a).PartsReadAgain limit all)
    (hRoot :
      ∀ ⦃ts rest a⦄, ts <:+ all → p ts = .done a rest →
        (outline a).root.ReadsAgain limit all) :
    p.Gives all fun a =>
      (outline a).ReadsAgain limit all := by
  intro ts rest a hPlace hDone
  rcases hParts hPlace hDone with ⟨hLater, hBelow⟩
  exact
    ⟨hLater,
      Outline.readsAgain_iff.mpr
        ⟨hRoot hPlace hDone, hBelow⟩⟩

end Parser

end FeSyntax
