import FeSyntax.Proofs.Grammar.Numbering
import FeSyntax.Proofs.Highlighting.TokenCover
import FeSyntax.Proofs.NamedTree.Words
import FeSyntax.Proofs.Parsing.Spans

/-
  This file proves that a valid grammar has a number for all
  that is printed: for the kinds and the labels in
  S-expressions, and for the labels in records of tokens.

  Key theorems include:
    * `Lexeme.TokenText.eq_of_nodeKind?`
    * `Token.text_of_nodeKind?`
    * `TokenKind.HasLabel.required`
    * `Grammar.names_everything_of_validate`
-/

namespace FeSyntax

------------------------------------------------------------
-- Anonymous Tokens
------------------------------------------------------------

/- But for marks, anonymous nodes are written as words. -/
theorem TokenKind.word?_of_nodeKind?
    {kind : TokenKind}
    {k : String}
    (hNode : kind.nodeKind? = some k)
    (hWord : ∀ p, kind ≠ .punct p) :
    kind.word? = some k := by
  cases kind with
  | keyword word => exact hNode
  | primitive type => exact hNode
  | bool value => exact hNode
  | punct mark => exact absurd rfl (hWord mark)
  | _ => cases hNode

/- An anonymous token is written as its node is called. -/
theorem Lexeme.TokenText.eq_of_nodeKind?
    {text : List Char}
    {kind : TokenKind}
    {k : String}
    (hText : TokenText text kind)
    (hNode : kind.nodeKind? = some k) :
    text = k.toList := by
  cases hText with
  | word hStart hRest =>
      have hWord :=
        TokenKind.word?_of_nodeKind? hNode
          fun _ => TokenKind.ofWord_ne_punct
      exact (TokenText.word hStart hRest).eq_word hWord
  | punct p => rw [Option.some.inj hNode]
  | _ => cases hNode

/-
  The text of an anonymous token is the name of its node.
-/
theorem Token.text_of_nodeKind?
    {source : String}
    {t : Token}
    {k : String}
    (hMem : t ∈ tokenize source)
    (hNode : t.kind.nodeKind? = some k) :
    t.text = k := by
  have hMore : t.kind ≠ .endOfText := by
    intro hEnd
    rw [hEnd] at hNode
    cases hNode
  have hProper : ∀ cause, t.kind ≠ .error cause := by
    intro cause hError
    rw [hError] at hNode
    cases hNode
  have hText :=
    (Scanner.ofString source).tokenText_of_mem_tokens hMem
      hMore hProper
  apply String.toList_injective
  exact hText.eq_of_nodeKind? hNode

------------------------------------------------------------
-- Required Entries
------------------------------------------------------------

namespace Grammar

/- Every named kind is asked of a grammar. -/
theorem named_required
    (kind : NamedKind) :
    ⟨kind.name, true⟩ ∈ requiredKinds := by
  apply List.mem_append_left
  exact List.mem_map.mpr ⟨kind, kind.mem_all, rfl⟩

/- So is every anonymous one. -/
theorem anonymous_required
    {k : String}
    (hMem : k ∈ anonymousKinds) :
    ⟨k, false⟩ ∈ requiredKinds := by
  apply List.mem_append_right
  exact List.mem_map.mpr ⟨k, hMem, rfl⟩

/- So is the label of every field. -/
theorem label_mem_requiredFields
    (field : FieldName) :
    field.label ∈ requiredFields :=
  List.mem_map.mpr ⟨field, field.mem_all, rfl⟩

/- The label of last resort is the name of no kind. -/
theorem ne_token_of_required :
    ∀ entry ∈ requiredKinds, entry.kind ≠ "token" := by
  decide

end Grammar

namespace TokenKind

/-
  The node of an anonymous token is one of those that a
  grammar must have.
-/
theorem nodeKind?_mem_anonymousKinds
    {kind : TokenKind}
    {k : String}
    (hNode : kind.nodeKind? = some k) :
    k ∈ anonymousKinds := by
  cases kind with
  | keyword word =>
      cases hNode
      cases word <;> decide
  | primitive type =>
      cases hNode
      cases type <;> decide
  | bool value =>
      cases hNode
      cases value <;> decide
  | punct mark =>
      cases hNode
      cases mark <;> decide
  | _ => cases hNode

/-
  Trees need the kind that a token is labelled by, which is
  named unless the token is an anonymous node.
-/
theorem HasLabel.required
    {kind : TokenKind}
    {label : String}
    (hLabel : kind.HasLabel label) :
    ⟨label, kind.nodeKind?.isNone⟩ ∈
      Grammar.requiredKinds := by
  cases hLabel with
  | anonymous hNode =>
      rw [hNode]
      exact
        Grammar.anonymous_required
          (nodeKind?_mem_anonymousKinds hNode)
  | identifier name =>
      exact Grammar.named_required .identifier
  | number value suffix =>
      exact Grammar.named_required .numberLiteral
  | string value =>
      exact Grammar.named_required .stringLiteral
  | comment => exact Grammar.named_required .comment

end TokenKind

------------------------------------------------------------
-- Coverage
------------------------------------------------------------

namespace Grammar

/-
  A valid grammar has a number, which leads back, for all
  that is printed.  These are the kinds and the labels in
  the S-expression of any file, and the nodes of anonymous
  tokens, which are written as their nodes are called.  All
  tokens but the end and errors have labels of their own,
  none of them the one of last resort, and the records show
  the place, the label and the text of each of them.
-/
theorem names_everything_of_validate
    {g : Grammar}
    (hValid : g.validate = .ok ()) :
    (∀ f : SourceFile,
      (∀ kind ∈ NamedTree.writtenKinds f.sexp.toList,
        g.NumbersKind ⟨kind, true⟩) ∧
      ∀ label ∈ NamedTree.writtenLabels f.sexp.toList,
        g.NumbersField label) ∧
    ∀ source,
      (∀ t ∈ tokenize source, ∀ k,
        t.kind.nodeKind? = some k →
        t.text = k ∧ g.NumbersKind ⟨k, false⟩) ∧
      (∀ t ∈ tokenize source,
        t.kind ≠ .endOfText →
        (∀ cause, t.kind ≠ .error cause) →
        t.kind.HasLabel t.kind.label ∧
          t.kind.label ≠ "token" ∧
          g.NumbersKind
            ⟨t.kind.label, t.kind.nodeKind?.isNone⟩) ∧
      (NoErrors (tokenize source) →
        let records :=
          (shownTokens source).map fun t =>
            toString t.span.line ++ ":" ++
              toString t.span.column ++ "\t" ++
              t.kind.label ++ "\t" ++ t.text
        Token.records (tokenize source) = .ok records ∧
        ∀ s : Session,
          s.render .tokens source =
            .ok ("\n".intercalate records)) := by
  rcases validate_eq_ok_iff.mp hValid with
    ⟨_, _, hKinds, hFields⟩
  refine ⟨?_, ?_⟩
  · intro f
    rw [SourceFile.sexp, NamedTree.writtenKinds_render,
      NamedTree.writtenLabels_render]
    constructor
    · intro kind hMem
      rcases List.mem_map.mp hMem with ⟨k, _, rfl⟩
      exact hKinds _ (named_required k)
    · intro label hMem
      rcases List.mem_map.mp hMem with ⟨field, _, rfl⟩
      exact hFields _ (label_mem_requiredFields field)
  · intro source
    refine ⟨?_, ?_, ?_⟩
    · intro t hMem k hNode
      have hRequired :=
        TokenKind.nodeKind?_mem_anonymousKinds hNode
      exact
        ⟨Token.text_of_nodeKind? hMem hNode,
          hKinds _ (anonymous_required hRequired)⟩
    · intro t hMem hMore hProper
      have hLabel := TokenKind.hasLabel_label hMore hProper
      exact
        ⟨hLabel, ne_token_of_required _ hLabel.required,
          hKinds _ hLabel.required⟩
    · intro hNone records
      have hRecords := Token.records_of_noErrors hNone
      refine ⟨hRecords, fun s => ?_⟩
      rw [Session.render, hRecords]
      rfl

/-
  A grammar whose last kind and last field have the greatest
  number there is.
-/
def crowded : Grammar where
  name := requiredName
  version := oldestVersion
  kinds :=
    List.replicate (maxId + 1 - requiredKinds.length)
        ⟨"", true⟩ ++
      requiredKinds.reverse
  fields :=
    List.replicate (maxId - requiredFields.length) "" ++
      requiredFields.reverse

theorem validate_crowded :
    crowded.validate = .ok () := by
  have hKinds :
      crowded.kinds.length = maxId + 1 := by
    have hFew : requiredKinds.length ≤ maxId + 1 := by
      decide
    rw [crowded, List.length_append, List.length_replicate,
      List.length_reverse, Nat.sub_add_cancel hFew]
  have hFields : crowded.fields.length = maxId := by
    have hFew : requiredFields.length ≤ maxId := by decide
    rw [crowded, List.length_append, List.length_replicate,
      List.length_reverse, Nat.sub_add_cancel hFew]
  rw [validate_eq_ok_iff]
  refine ⟨by decide, rfl, ?_, ?_⟩
  · intro entry hMem
    apply numbersKind_of_mem (Nat.le_of_eq hKinds)
    apply List.mem_append_right
    exact List.mem_reverse.mpr hMem
  · intro field hMem
    apply numbersField_of_mem (Nat.le_of_eq hFields)
    apply List.mem_append_right
    exact List.mem_reverse.mpr hMem

/-
  A text with a keyword, names, a mark, a number, a string
  and a comment.
-/
def mixedTokens : String :=
  "fn x::y 7 \"s\" // c"

theorem noErrors_mixedTokens :
    NoErrors (tokenize mixedTokens) := by
  decide +kernel

theorem crowded_names_everything :
    let s : Span := ⟨0, 0, 1, 1⟩
    let a : TypeAlias :=
      ⟨false, ⟨"Id", s⟩, [], .primitive .u8 s, s⟩
    let f : SourceFile := ⟨[.typeAlias a], [], s⟩
    crowded.validate = .ok () ∧
    f.sexp =
      "(source_file (type_def name: (identifier) " ++
        "type: (primitive_type)))" ∧
    NamedTree.writtenKinds f.sexp.toList =
      [ "source_file", "type_def", "identifier",
        "primitive_type" ] ∧
    NamedTree.writtenLabels f.sexp.toList =
      ["name", "type"] ∧
    crowded.NumbersKind ⟨"primitive_type", true⟩ ∧
    crowded.NumbersField "type" ∧
    (∃ t ∈ tokenize mixedTokens,
      t.kind.nodeKind? = some "::" ∧ t.text = "::") ∧
    (∀ label ∈ ["fn", "::"],
      crowded.NumbersKind ⟨label, false⟩) ∧
    (∀ label ∈
        ["identifier", "number_literal", "string_literal",
          "comment"],
      crowded.NumbersKind ⟨label, true⟩) ∧
    Session.ready.render .tokens mixedTokens =
      .ok
        ("1:1\tfn\tfn\n" ++
          "1:4\tidentifier\tx\n" ++
          "1:5\t::\t::\n" ++
          "1:7\tidentifier\ty\n" ++
          "1:9\tnumber_literal\t7\n" ++
          "1:11\tstring_literal\t\"s\"\n" ++
          "1:15\tcomment\t// c") := by
  intro s a f
  have hValid := validate_crowded
  rcases names_everything_of_validate hValid with
    ⟨hFiles, hSources⟩
  rcases hFiles f with ⟨hKinds, hLabels⟩
  rcases hSources mixedTokens with
    ⟨hNodes, hTokens, hRecords⟩
  rcases hRecords noErrors_mixedTokens with ⟨-, hRender⟩
  have hMark :
      ∃ t ∈ tokenize mixedTokens,
        t.kind.nodeKind? = some "::" := by
    decide +kernel
  rcases hMark with ⟨t, hMem, hNode⟩
  have hText := (hNodes t hMem "::" hNode).1
  have hShown :
      ∀ isNamed label,
        (∃ u ∈ shownTokens mixedTokens,
          u.kind.label = label ∧
            u.kind.nodeKind?.isNone = isNamed) →
        crowded.NumbersKind ⟨label, isNamed⟩ := by
    rintro _ _ ⟨u, hShown, rfl, rfl⟩
    have hToken := List.mem_of_mem_filter hShown
    exact
      (hTokens u hToken
        (ne_endOfText_of_mem_shownTokens hShown)
        (noErrors_mixedTokens u hToken)).2.2
  have hAnonymous :
      ∀ label ∈ ["fn", "::"],
        ∃ u ∈ shownTokens mixedTokens,
          u.kind.label = label ∧
            u.kind.nodeKind?.isNone = false := by
    decide +kernel
  have hNamed :
      ∀ label ∈
          [ "identifier", "number_literal", "string_literal",
            "comment" ],
        ∃ u ∈ shownTokens mixedTokens,
          u.kind.label = label ∧
            u.kind.nodeKind?.isNone = true := by
    decide +kernel
  refine
    ⟨hValid, by decide, by decide +kernel, by decide +kernel,
      hKinds _ (by decide), hLabels _ (by decide),
      ⟨t, hMem, hNode, hText⟩, ?_, ?_, ?_⟩
  · intro label hLabel
    exact hShown false label (hAnonymous label hLabel)
  · intro label hLabel
    exact hShown true label (hNamed label hLabel)
  · rw [hRender .ready]
    decide +kernel

end Grammar

end FeSyntax
