import FeSyntax.Proofs.Parsing.Threshold
import FeSyntax.Proofs.Sample.GeneratedModule
import FeSyntax.Proofs.Syntax.ShapeHeight

/-
  This file proves what the families of samples are parsed
  as.  Each block that is nested in another one takes two
  levels, so a text of nested blocks parses just if it has a
  block, which is the body of the function, and the limit
  allows two levels for each block and one for the function.

  Key definitions include:
    * `Sample.blockTree`
    * `Sample.nestedTree`
    * `Sample.nestedKinds`

  Key theorems include:
    * `Sample.nestedKinds_mem_spellings`
    * `Sample.height_blockTree`
    * `Sample.exists_parse_nestedBlocks`
    * `Sample.runsTooDeep_nestedBlocks`
    * `Sample.families_parse_at_every_size`
-/

namespace FeSyntax

namespace Sample

------------------------------------------------------------
-- Trees
------------------------------------------------------------

/- A number in a block, with `depth` blocks around it. -/
def blockTree : Nat → Block
  | 0 => ⟨[], some (number 1), nowhere⟩
  | depth + 1 =>
      ⟨[], some (.block (blockTree depth)), nowhere⟩

/- The file of a function with `depth + 1` nested blocks. -/
def nestedTree
    (depth : Nat) : SourceFile where
  definitions :=
    [ .function
        { isPub := false
          name := named "f"
          typeParams := []
          params := []
          returnType := none
          body := blockTree depth
          span := nowhere } ]
  comments := []
  span := nowhere

/- A block is two levels higher than the block in it. -/
theorem height_blockTree
    (depth : Nat) :
    (blockTree depth).height = 2 * depth + 2 := by
  induction depth with
  | zero => rfl
  | succ depth ih =>
      rw [blockTree, Block.height, Expression.optionHeight,
        Expression.height, ih]
      simp [Block.statementHeights, highest]
      omega

/- The function around the blocks is one level higher. -/
theorem height_nestedTree
    (depth : Nat) :
    (nestedTree depth).height = 2 * depth + 3 := by
  simp [nestedTree, SourceFile.height, Definition.height,
    Function.height, height_blockTree, highest]

/-
  Blocks without names have no word that could be a keyword.
-/
theorem keywordWins_blockTree
    (depth : Nat) :
    (blockTree depth).KeywordWins := by
  induction depth with
  | zero =>
      refine .mk (List.forall_mem_nil _) ?_ ?_
      · intro e hMem
        rw [← Option.some.inj hMem]
        exact .literal
      · intro e hMem
        rw [← Option.some.inj hMem]
        exact fun hBegins => hBegins
  | succ depth ih =>
      refine .mk (List.forall_mem_nil _) ?_ ?_
      · intro e hMem
        rw [← Option.some.inj hMem]
        exact .block ih
      · intro e hMem
        rw [← Option.some.inj hMem]
        exact fun hBegins => hBegins

theorem keywordWins_nestedTree
    (depth : Nat) :
    (nestedTree depth).KeywordWins := by
  intro d hMem
  rw [List.mem_singleton.mp hMem]
  refine .function ⟨List.forall_mem_nil _, ?_, ?_⟩
  · intro ty hMem
    cases hMem
  · exact keywordWins_blockTree depth

------------------------------------------------------------
-- Tokens
------------------------------------------------------------

/- The tokens of a number in braces. -/
def bracedKinds
    (depth : Nat) : List TokenKind :=
  List.replicate depth (.punct .leftBrace) ++
    .number (some 1) none ::
      List.replicate depth (.punct .rightBrace)

/- The tokens of nested blocks. -/
def nestedKinds
    (depth : Nat) : List TokenKind :=
  [ .keyword .fnKw, .identifier "f", .punct .leftParen,
    .punct .rightParen ] ++ bracedKinds depth

/- One more block has its braces on the outside. -/
theorem bracedKinds_succ
    (depth : Nat) :
    bracedKinds (depth + 1) =
      [.punct .leftBrace] ++
        (bracedKinds depth ++ [.punct .rightBrace]) := by
  simp only [bracedKinds, List.append_assoc,
    List.cons_append, List.nil_append,
    ← List.replicate_succ']
  rfl

/- Blocks inside each other spell their tree. -/
theorem bracedKinds_mem_spellings
    (depth : Nat) :
    bracedKinds (depth + 1) ∈
      (blockTree depth).spellings := by
  induction depth with
  | zero =>
      simp [bracedKinds, blockTree, number, Block.spellings,
        Expression.spellings, Literal.spellings,
        LiteralValue.kind, Punct.written, mul_assoc,
        TokenKind.cons_mem_written_mul_iff,
        TokenKind.mem_written_iff]
  | succ depth ih =>
      rw [bracedKinds_succ, blockTree, Block.spellings,
        Block.statementSpellings,
        Expression.optionSpellings, Expression.spellings,
        List.prod_nil, mul_one, mul_assoc]
      refine Language.append_mem_mul rfl ?_
      exact Language.append_mem_mul ih rfl

/- So does the function around them, with its file. -/
theorem nestedKinds_mem_spellings
    (depth : Nat) :
    nestedKinds (depth + 1) ∈
      (nestedTree depth).spellings := by
  have hName : TokenKind.ofWord "f" = .identifier "f" := by
    decide
  simp [nestedKinds, nestedTree, named, hName,
    SourceFile.spellings, Definition.spellings,
    Function.spellings, Spelling.visibility,
    Spelling.present, Spelling.separated, Spelling.behind,
    Identifier.typeParamSpellings, Identifier.spellings,
    Keyword.written, Punct.written, mul_assoc,
    TokenKind.cons_mem_written_mul_iff,
    bracedKinds_mem_spellings]

/- None of their tokens is a comment or an error. -/
theorem isOrdinary_of_mem_nestedKinds
    {depth : Nat}
    {kind : TokenKind}
    (hMem : kind ∈ nestedKinds depth) :
    kind.IsOrdinary := by
  simp only [nestedKinds, bracedKinds, List.mem_append,
    List.mem_cons, List.mem_replicate, List.not_mem_nil,
    or_false] at hMem
  rcases hMem with
    (rfl | rfl | rfl | rfl) |
      (⟨-, rfl⟩ | rfl | ⟨-, rfl⟩) <;>
  trivial

------------------------------------------------------------
-- Characters
------------------------------------------------------------

/- Braces are tokens of their own, whatever is behind. -/
theorem isScannedAs_braces
    {brace : Char}
    {p : Punct}
    (hSpell : p.spelling.toList = [brace])
    (hAlone :
      ∀ q : Punct,
        q.spelling.toList.head? =
            p.spelling.toList.head? →
          q.spelling.toList.length ≤
            p.spelling.toList.length)
    (depth : Nat) :
    Scanner.IsScannedAs (fun _ => True)
      (List.replicate depth brace)
      (List.replicate depth (.punct p)) := by
  have hOne :
      Scanner.IsScannedAs (fun _ => True) [brace]
        [.punct p] := by
    rw [← hSpell]
    exact .of_longest fun rest _ =>
      Lexeme.isLongest_punct hAlone rest
  induction depth with
  | zero => exact .nil
  | succ depth ih =>
      rw [List.replicate_succ, List.replicate_succ]
      exact hOne.append ih fun _ _ => trivial

/- The characters of nested blocks. -/
def nestedChars
    (depth : Nat) : List Char :=
  "fn f()".toList ++
    ' ' :: (List.replicate depth '\x7b' ++
      ('1' :: List.replicate depth '\x7d'))

/- The texts of nested blocks are these characters. -/
theorem nestedBlocks_eq
    (depth : Nat) :
    nestedBlocks depth =
      String.ofList (nestedChars depth) := by
  have hHead :
      "fn f() ".toList = "fn f()".toList ++ [' '] := by
    decide
  have hOne : "1".toList = ['1'] := by
    decide
  rw [← String.toList_inj]
  unfold nestedBlocks nestedChars
  simp only [String.toList_append, String.toList_ofList,
    hHead, hOne, List.append_assoc, List.cons_append,
    List.nil_append]

/- Nested blocks are scanned as their tokens. -/
theorem isScannedAs_nestedChars
    (depth : Nat) :
    Scanner.IsScannedAs EndsWord (nestedChars depth)
      (nestedKinds depth) := by
  have hHead :
      Scanner.IsScannedAs StartsBlank "fn f()".toList
        [ .keyword .fnKw, .identifier "f",
          .punct .leftParen, .punct .rightParen ] :=
    .of_tokenize (by decide +kernel) (by decide) (by decide)
  have hOpen :=
    isScannedAs_braces (p := .leftBrace) rfl
      (by intro q; cases q <;> decide) depth
  have hClose :=
    (isScannedAs_braces (p := .rightBrace) rfl
      (by intro q; cases q <;> decide) depth).imp
        fun rest (_ : EndsWord rest) => trivial
  have hNumber :
      Scanner.IsScannedAs EndsWord ['1']
        [.number (some 1) none] := by
    have hOne : (toString 1).toList = ['1'] := by
      decide
    rw [← hOne]
    exact isScannedAs_number (by decide)
  have hBraced :
      Scanner.IsScannedAs EndsWord
        (List.replicate depth '\x7b' ++
          (['1'] ++ List.replicate depth '\x7d'))
        (bracedKinds depth) := by
    refine
      hOpen.append (hNumber.append hClose ?_)
        fun _ _ => trivial
    intro rest hRest
    cases depth with
    | zero => exact hRest
    | succ depth =>
        change ¬ Lexeme.ContinuesWord '\x7d'
        decide
  refine hHead.append (hBraced.blank ?_) ?_
  · simp [bracedKinds]
  · intro rest _
    change Text.IsBlank ' '
    decide

------------------------------------------------------------
-- Parsing
------------------------------------------------------------

/- The grammar sees the tokens of nested blocks. -/
theorem significantKinds_nestedBlocks
    (depth : Nat) :
    significantKinds (nestedBlocks depth) =
      nestedKinds depth := by
  have hEnds : EndsWord [] := trivial
  have hTokens :=
    (isScannedAs_nestedChars depth).map_kind_tokenize hEnds
      (List.forall_mem_nil _)
  rw [List.append_nil, ← nestedBlocks_eq] at hTokens
  exact significantKinds_of_ordinary hTokens
    fun _ => isOrdinary_of_mem_nestedKinds

/- Blocks are parsed under a limit that allows them. -/
theorem exists_parse_nestedBlocks
    (depth : Nat)
    {limit : Nat}
    (hLimit : 2 * depth + 3 ≤ limit) :
    ∃ f,
      SourceFile.parse (nestedBlocks (depth + 1)) limit =
        .ok f ∧
      f.height = 2 * depth + 3 := by
  have hSpelled := nestedKinds_mem_spellings depth
  rw [← significantKinds_nestedBlocks] at hSpelled
  rw [← height_nestedTree] at hLimit ⊢
  rcases SourceFile.exists_parse
      (keywordWins_nestedTree depth) hSpelled hLimit with
    ⟨f, hParse, hShape⟩
  exact
    ⟨f, hParse, SourceFile.height_eq_of_shape_eq hShape⟩

/- Under a lower limit they are nested too deep. -/
theorem runsTooDeep_nestedBlocks
    {depth limit : Nat}
    (hLimit : limit < 2 * depth + 3) :
    SourceFile.RunsTooDeep (nestedBlocks (depth + 1))
      limit := by
  by_contra hEnough
  rcases exists_parse_nestedBlocks depth (Nat.le_refl _)
    with ⟨f, hParse, hHeight⟩
  rw [SourceFile.parse_of_le hEnough hLimit.le] at hParse
  have hLow := SourceFile.height_le_of_parse hParse
  omega

/- A number is no body of a function, under any limit. -/
theorem not_parse_nestedBlocks_zero
    (limit : Nat) :
    ¬ ∃ f,
      SourceFile.parse (nestedBlocks 0) limit = .ok f := by
  rintro ⟨f, hParse⟩
  have hFails :
      (SourceFile.parse (nestedBlocks 0) 11).isOk =
        false := by
    decide +kernel
  have hEnough :
      ¬ SourceFile.RunsTooDeep (nestedBlocks 0) 11 := by
    apply SourceFile.not_runsTooDeep
    have hLength :=
      congrArg List.length (significantKinds_nestedBlocks 0)
    rw [significantKinds, List.length_map] at hLength
    rw [hLength]
    decide
  rcases Nat.le_total limit 11 with hLess | hLess
  · rw [SourceFile.parse_eq_ok_of_le hParse hLess] at hFails
    cases hFails
  · rw [← SourceFile.parse_of_le hEnough hLess,
      hParse] at hFails
    cases hFails

/-
  The families of samples are parsed at every size.  Under
  the default limit, a generated module is one module with
  as many public functions as were asked for, named in
  order, with two parameters, a `let` whose value is the
  number of the function, and a `match` with two arms, and
  there are no comments.  Nested blocks parse just if there
  is a block and the limit is not below two levels for each
  block and one more, and else, if there is a block, they
  are nested too deep.
-/
theorem families_parse_at_every_size :
    (∀ count < Nat.pow 2 64,
      ∃ f m,
        SourceFile.parse (generatedModule count)
            defaultLimit =
          .ok f ∧
        f.definitions = [.module m] ∧
        f.comments = [] ∧
        m.name.name = "generated" ∧
        m.definitions.length = count ∧
        ∀ n d, m.definitions[n]? = some d →
          ∃ g, d = .function g ∧ IsGenerated n g) ∧
    ∀ depth limit,
      ((∃ f,
          SourceFile.parse (nestedBlocks depth) limit =
            .ok f) ↔
        1 ≤ depth ∧ 2 * depth + 1 ≤ limit) ∧
      (1 ≤ depth →
        limit < 2 * depth + 1 →
        ∃ line column,
          SourceFile.parse (nestedBlocks depth) limit =
            .error
              (.nestingTooDeep limit line column)) := by
  constructor
  · intro count hBelow
    exact parse_generatedModule hBelow
  · intro depth limit
    cases depth with
    | zero =>
        refine ⟨?_, fun hNone => absurd hNone (by decide)⟩
        constructor
        · intro hParse
          exact absurd hParse
            (not_parse_nestedBlocks_zero limit)
        · intro hSome
          exact absurd hSome.1 (by decide)
    | succ depth =>
        constructor
        · constructor
          · intro hParse
            refine ⟨by omega, ?_⟩
            by_contra hLow
            have hDeep : SourceFile.RunsTooDeep
                (nestedBlocks (depth + 1)) limit :=
              runsTooDeep_nestedBlocks (by omega)
            rcases hParse with ⟨f, hParse⟩
            rcases hDeep with ⟨line, column, hDeep⟩
            rw [hParse] at hDeep
            cases hDeep
          · intro hHigh
            have hEnough : 2 * depth + 3 ≤ limit := by
              omega
            rcases exists_parse_nestedBlocks depth hEnough
              with ⟨f, hParse, -⟩
            exact ⟨f, hParse⟩
        · intro _ hLow
          exact runsTooDeep_nestedBlocks (by omega)

theorem families_parse_at_every_size_twoBlocks :
    (∃ f m,
      SourceFile.parse (generatedModule 300) defaultLimit =
        .ok f ∧
      f.definitions = [.module m] ∧
      m.definitions.length = 300) ∧
    (∃ f, SourceFile.parse (nestedBlocks 2) 5 = .ok f) ∧
    ∃ line column,
      SourceFile.parse (nestedBlocks 2) 4 =
        .error (.nestingTooDeep 4 line column) := by
  rcases families_parse_at_every_size with
    ⟨hModules, hBlocks⟩
  rcases hModules 300 (by decide) with
    ⟨f, m, hParse, hModule, -, -, hLength, -⟩
  refine ⟨⟨f, m, hParse, hModule, hLength⟩, ?_, ?_⟩
  · exact (hBlocks 2 5).1.mpr (by decide)
  · exact (hBlocks 2 4).2 (by decide) (by decide)

end Sample

end FeSyntax
