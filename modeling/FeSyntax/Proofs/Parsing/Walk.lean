import FeSyntax.Proofs.Parsing.LeafTokens

/-
  This file proves what visitors see of a file that was
  parsed: every node once, in the order of the text, and all
  words but those that the grammar itself asks for.

  Key theorems include:
    * `SourceFile.mem_visited_iff`
    * `SourceFile.word_cases`
    * `SourceFile.walk_visits_once`
-/

namespace FeSyntax

------------------------------------------------------------
-- Visitors Of Leaves
------------------------------------------------------------

namespace Node

variable {n : Node}

theorem parts_of_identifier?
    (hName : n.identifier?.isSome) :
    n.parts = [] := by
  cases n with
  | identifier i => rfl
  | _ => cases hName

theorem parts_of_literal?
    (hLiteral : n.literal?.isSome) :
    n.parts = [] := by
  cases n with
  | literal l => rfl
  | _ => cases hLiteral

/- A visitor of names sees just the nodes of names. -/
theorem identifier?_eq_some
    {i : Identifier} :
    n.identifier? = some i ↔ n = identifier i := by
  cases n <;> simp [identifier?]

/- A visitor of literals sees just the nodes of literals. -/
theorem literal?_eq_some
    {l : Literal} :
    n.literal? = some l ↔ n = literal l := by
  cases n <;> simp [literal?]

/- A name stands where its node does. -/
theorem span_of_identifier?
    {i : Identifier}
    (hName : n.identifier? = some i) :
    i.span = n.span := by
  rw [identifier?_eq_some.mp hName]
  rfl

theorem span_of_literal?
    {l : Literal}
    (hLiteral : n.literal? = some l) :
    l.span = n.span := by
  rw [literal?_eq_some.mp hLiteral]
  rfl

end Node

/- The grammar sees all words. -/
theorem mem_significantTokens_of_word
    {source : String}
    {t : Token}
    {word : String}
    (hMem : t ∈ tokenize source)
    (hWord : t.kind.word? = some word) :
    t ∈ significantTokens source := by
  refine List.mem_filter.mpr ⟨hMem, ?_⟩
  cases hKind : t.kind <;>
    simp_all [Token.IsSignificant, TokenKind.word?]

namespace SourceFile

/- A visitor of leaves sees those that the file has. -/
theorem mem_visited_iff
    {α : Type}
    {sees : Node → Option α}
    (hLeaf : ∀ n, (sees n).isSome → n.parts = [])
    {f : SourceFile}
    {a : α} :
    a ∈ f.visited sees ↔
      ∃ n, f.Has n ∧ sees n = some a := by
  rw [visited_eq hLeaf, List.mem_filterMap]
  simp only [mem_nodes_iff]

/- The names that are visited are those of the file. -/
theorem mem_visited_identifier?
    {f : SourceFile}
    {i : Identifier} :
    i ∈ f.visited Node.identifier? ↔
      f.Has (.identifier i) := by
  rw [mem_visited_iff fun _ => Node.parts_of_identifier?]
  simp [Node.identifier?_eq_some]

/- The literals that are visited are those of the file. -/
theorem mem_visited_literal?
    {f : SourceFile}
    {l : Literal} :
    l ∈ f.visited Node.literal? ↔ f.Has (.literal l) := by
  rw [mem_visited_iff fun _ => Node.parts_of_literal?]
  simp [Node.literal?_eq_some]

section Parsed

variable {source : String}
variable {limit : Nat}
variable {f : SourceFile}
variable (hParse : SourceFile.parse source limit = .ok f)

include hParse

/- A visitor of names sees each of them behind the last. -/
theorem rising_identifiers :
    (f.visited Node.identifier?).Pairwise fun i j =>
      i.span.start < j.span.start :=
  visited_rising hParse
    (fun _ => Node.parts_of_identifier?)
    fun _ _ => Node.span_of_identifier?

/- And so does a visitor of literals. -/
theorem rising_literals :
    (f.visited Node.literal?).Pairwise fun l m =>
      l.span.start < m.span.start :=
  visited_rising hParse (fun _ => Node.parts_of_literal?)
    fun _ _ => Node.span_of_literal?

------------------------------------------------------------
-- Words
------------------------------------------------------------

/-
  A word of the text is a name or a literal of the file, or
  it is a primitive type, a wildcard or a keyword.
-/
theorem word_cases
    {t : Token}
    {word : String}
    (hMem : t ∈ tokenize source)
    (hWord : t.kind.word? = some word) :
    (∃ i, f.Has (.identifier i) ∧
      i.span = t.span ∧ t.kind = .ofWord i.name) ∨
    (∃ l, f.Has (.literal l) ∧
      l.span = t.span ∧ t.kind = l.value.kind) ∨
    (∃ p, f.Has (.ty (.primitive p t.span)) ∧
      t.kind = .primitive p) ∨
    (f.Has (.pattern (.wildcard t.span)) ∧
      t.kind = .keyword .underscore) ∨
    ∃ k, k ≠ .underscore ∧ t.kind = .keyword k := by
  have hToken := mem_significantTokens_of_word hMem hWord
  cases hFrame : t.kind.isFrame with
  | true =>
      cases hKind : t.kind with
      | keyword k =>
          rw [hKind] at hFrame
          have hOther := of_decide_eq_true hFrame
          exact .inr (.inr (.inr (.inr ⟨k, hOther, rfl⟩)))
      | punct mark =>
          rw [hKind] at hWord
          cases hWord
      | _ =>
          rw [hKind] at hFrame
          cases hFrame
  | false =>
      rcases exists_leaf_of_token hParse hToken hFrame with
        ⟨n, hNode, hSpan, hKind⟩
      have hHas := mem_nodes_iff.mp hNode
      cases n with
      | identifier i =>
          exact .inl ⟨i, hHas, hSpan,
            (Option.some.inj hKind).symm⟩
      | literal l =>
          exact .inr (.inl ⟨l, hHas, hSpan,
            (Option.some.inj hKind).symm⟩)
      | ty ty =>
          cases ty with
          | primitive p span =>
              cases hSpan
              exact .inr (.inr (.inl ⟨p, hHas,
                (Option.some.inj hKind).symm⟩))
          | _ => cases hKind
      | pattern p =>
          cases p with
          | wildcard span =>
              cases hSpan
              exact .inr (.inr (.inr (.inl ⟨hHas,
                (Option.some.inj hKind).symm⟩)))
          | _ => cases hKind
      | _ => cases hKind

end Parsed

------------------------------------------------------------
-- Main Result
------------------------------------------------------------

/-
  A walk that goes on everywhere sees exactly the nodes of
  the file, each once and before its parts, which follow in
  their order, and nodes start in the order in which it sees
  them.  A visitor that looks at names only, or at literals
  only, sees exactly those of the file, and each starts
  behind the one before.  Every other word of the text is a
  keyword, a primitive type or a wildcard.
-/
theorem walk_visits_once
    {source : String}
    {limit : Nat}
    {f : SourceFile}
    (hParse : SourceFile.parse source limit = .ok f) :
    (∀ n, n ∈ f.nodes ↔ f.Has n) ∧
    f.nodes.Nodup ∧
    (∀ n ∈ f.nodes, (n :: n.parts).Sublist f.nodes) ∧
    f.nodes.Pairwise
      (fun n m => n.span.start ≤ m.span.start) ∧
    (∀ i, i ∈ f.visited Node.identifier? ↔
      f.Has (.identifier i)) ∧
    (f.visited Node.identifier?).Pairwise
      (fun i j => i.span.start < j.span.start) ∧
    (∀ l, l ∈ f.visited Node.literal? ↔
      f.Has (.literal l)) ∧
    (f.visited Node.literal?).Pairwise
      (fun l m => l.span.start < m.span.start) ∧
    ∀ t ∈ tokenize source, ∀ word,
      t.kind.word? = some word →
      (∀ i ∈ f.visited Node.identifier?,
        i.span.start ≠ t.span.start) →
      (∀ l ∈ f.visited Node.literal?,
        l.span.start ≠ t.span.start) →
      (∃ k, k ≠ .underscore ∧ t.kind = .keyword k) ∨
      (∃ p, f.Has (.ty (.primitive p t.span)) ∧
        t.kind = .primitive p) ∨
      (f.Has (.pattern (.wildcard t.span)) ∧
        t.kind = .keyword .underscore) := by
  refine
    ⟨fun n => mem_nodes_iff, nodup_nodes hParse,
      fun n => @Node.parts_sublist (.sourceFile f) n,
      starts_nodes hParse, fun i => mem_visited_identifier?,
      rising_identifiers hParse,
      fun l => mem_visited_literal?, rising_literals hParse,
      ?_⟩
  intro t hMem word hWord hNoName hNoLiteral
  rcases word_cases hParse hMem hWord with
    ⟨i, hHas, hSpan, -⟩ | ⟨l, hHas, hSpan, -⟩ |
      hPrimitive | hWildcard | hKeyword
  · exact absurd (congrArg Span.start hSpan)
      (hNoName i (mem_visited_identifier?.mpr hHas))
  · exact absurd (congrArg Span.start hSpan)
      (hNoLiteral l (mem_visited_literal?.mpr hHas))
  · exact .inr (.inl hPrimitive)
  · exact .inr (.inr hWildcard)
  · exact .inl hKeyword

/- A function with every sort of word in it. -/
def wildcardMatch : String :=
  "fn type(x: u8) \x7b match x \x7b _ => true \x7d \x7d"

/- A match with a wildcard, in which a keyword is a name. -/
theorem walk_visits_once_wildcardMatch :
    ∃ f, SourceFile.parse wildcardMatch 8 = .ok f ∧
      f.nodes.length = 16 ∧
      f.nodes.Nodup ∧
      (f.visited Node.identifier?).map Identifier.name =
        ["type", "x", "x"] ∧
      (f.visited Node.identifier?).Pairwise
        (fun i j => i.span.start < j.span.start) ∧
      (f.visited Node.literal?).length = 1 := by
  have hRuns :
      (SourceFile.parse wildcardMatch 8).toOption.map
          (fun f =>
            (f.nodes.length,
              (f.visited Node.identifier?).map
                Identifier.name,
              (f.visited Node.literal?).length)) =
        some (16, ["type", "x", "x"], 1) := by
    decide +kernel
  cases hParse : SourceFile.parse wildcardMatch 8 with
  | error e =>
      rw [hParse] at hRuns
      cases hRuns
  | ok f =>
      rw [hParse] at hRuns
      have hSeen := Option.some.inj hRuns
      rw [Prod.mk.injEq, Prod.mk.injEq] at hSeen
      rcases hSeen with ⟨hLength, hNames, hLiterals⟩
      rcases walk_visits_once hParse with
        ⟨-, hOnce, -, -, -, hRising, -⟩
      exact
        ⟨f, rfl, hLength, hOnce, hNames, hRising, hLiterals⟩

end SourceFile

end FeSyntax
