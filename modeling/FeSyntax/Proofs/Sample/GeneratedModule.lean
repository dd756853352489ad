import FeSyntax.Proofs.Lexing.Fragment
import FeSyntax.Proofs.Lexing.Numeral
import FeSyntax.Proofs.Parsing.Completeness
import FeSyntax.Sample

/-
  This file proves that generated modules are parsed as what
  they are made of.  Whatever their number, the functions of
  a generated module are found again in order, each with the
  number that it is named and made for.

  Key definitions include:
    * `Sample.IsGenerated`
    * `Sample.functionTree`
    * `Sample.functionKinds`
    * `Sample.moduleTree`
    * `Sample.moduleKinds`

  Key theorems include:
    * `Sample.isScannedAs_functionChars`
    * `Sample.functionKinds_mem_spellings`
    * `Sample.exists_isGenerated`
    * `Sample.parse_generatedModule`
-/

namespace FeSyntax

namespace Sample

------------------------------------------------------------
-- Trees
------------------------------------------------------------

/- A span that is at no place. -/
def nowhere : Span :=
  ⟨0, 0, 0, 0⟩

/- A name, and a path of one name, without their places. -/
def named
    (name : String) : Identifier :=
  ⟨name, nowhere⟩

def pathTo
    (name : String) : Path :=
  ⟨[named name], nowhere⟩

def number
    (n : Nat) : Expression :=
  .literal ⟨.number (some n) none, nowhere⟩

/- The `match` at the end of each generated function. -/
def tailTree : Match where
  value := .path (pathTo "a")
  arms :=
    [ ⟨.tupleStruct (pathTo "Some")
          [.identifier (named "v")] nowhere,
        .path (pathTo "v"), nowhere⟩,
      ⟨.wildcard nowhere, .path (pathTo "x"), nowhere⟩ ]
  span := nowhere

/- The function with number `n` of a generated module. -/
def functionTree
    (n : Nat) : Function where
  isPub := true
  name := named ("f" ++ toString n)
  typeParams := []
  params :=
    [ ⟨named "a", .primitive .u64 nowhere, nowhere⟩,
      ⟨named "b",
        .reference true
          (.tuple
            [.primitive .bool nowhere,
              .primitive .address nowhere]
            nowhere)
          nowhere,
        nowhere⟩ ]
  returnType := some (.primitive .u64 nowhere)
  body :=
    { statements :=
        [ .binding
            ⟨false, named "x",
              some (.primitive .u64 nowhere),
              some (number n), nowhere⟩ ]
      tail := some (.matching tailTree)
      span := nowhere }
  span := nowhere

/- The file of a generated module with `count` functions. -/
def moduleTree
    (count : Nat) : SourceFile where
  definitions :=
    [ .module
        { name := named "generated"
          definitions :=
            (List.range count).map
              (fun n => .function (functionTree n))
          span := nowhere } ]
  comments := []
  span := nowhere

------------------------------------------------------------
-- Tokens
------------------------------------------------------------

/- Lists that are in languages are in their product. -/
theorem flatMap_mem_prod
    {α : Type}
    {xs : List α}
    {written : α → List TokenKind}
    {spelled : α → Language TokenKind}
    (hEach : ∀ x ∈ xs, written x ∈ spelled x) :
    xs.flatMap written ∈ (xs.map spelled).prod := by
  induction xs with
  | nil => rfl
  | cons x xs ih =>
      rw [List.flatMap_cons, List.map_cons, List.prod_cons]
      exact Language.append_mem_mul (hEach x (.head _))
        (ih fun y hMem => hEach y (.tail _ hMem))

/- The tokens in front of the name of a function. -/
def headKinds : List TokenKind :=
  [.keyword .pubKw, .keyword .fnKw]

/- The tokens between the name and the number. -/
def signatureKinds : List TokenKind :=
  [ .punct .leftParen, .identifier "a", .punct .colon,
    .primitive .u64, .punct .comma, .identifier "b",
    .punct .colon, .punct .ampersand, .keyword .mutKw,
    .punct .leftParen, .primitive .bool, .punct .comma,
    .primitive .address, .punct .rightParen,
    .punct .rightParen, .punct .arrow, .primitive .u64,
    .punct .leftBrace, .keyword .letKw, .identifier "x",
    .punct .colon, .primitive .u64, .punct .equals ]

/- The tokens behind the number. -/
def tailKinds : List TokenKind :=
  [ .punct .semicolon, .keyword .matchKw, .identifier "a",
    .punct .leftBrace, .identifier "Some",
    .punct .leftParen, .identifier "v", .punct .rightParen,
    .punct .fatArrow, .identifier "v", .punct .semicolon,
    .keyword .underscore, .punct .fatArrow, .identifier "x",
    .punct .rightBrace, .punct .rightBrace ]

/- The tokens of a generated function. -/
def functionKinds
    (n : Nat) : List TokenKind :=
  headKinds ++ .ofWord ("f" ++ toString n) ::
    (signatureKinds ++ .number (some n) none :: tailKinds)

/- The tokens of a generated module. -/
def moduleKinds
    (count : Nat) : List TokenKind :=
  [.keyword .modKw, .identifier "generated",
    .punct .leftBrace] ++
    (List.range count).flatMap functionKinds ++
    [.punct .rightBrace]

/- A generated function spells its tree. -/
theorem functionKinds_mem_spellings
    (n : Nat) :
    functionKinds n ∈ (functionTree n).spellings := by
  have hA : TokenKind.ofWord "a" = .identifier "a" := by
    decide
  have hB : TokenKind.ofWord "b" = .identifier "b" := by
    decide
  have hV : TokenKind.ofWord "v" = .identifier "v" := by
    decide
  have hX : TokenKind.ofWord "x" = .identifier "x" := by
    decide
  have hSome :
      TokenKind.ofWord "Some" = .identifier "Some" := by
    decide
  simp [functionKinds, headKinds, signatureKinds, tailKinds,
    functionTree, tailTree, number,
    pathTo, named, Function.spellings, Spelling.visibility,
    Spelling.present, Spelling.separated, Spelling.behind,
    Param.spellings, Identifier.typeParamSpellings,
    Identifier.spellings, Path.spellings, Ty.spellings,
    Expression.spellings, Match.spellings, Block.spellings,
    Statement.spellings, LetBinding.spellings,
    MatchArm.spellings, Pattern.spellings,
    Literal.spellings, LiteralValue.kind, Keyword.written,
    Punct.written, TokenKind.cons_mem_written_mul_iff,
    TokenKind.mem_written_iff, Language.mem_add, mul_assoc,
    add_mul, hA, hB, hV, hX, hSome]

/- A generated module spells its tree. -/
theorem moduleKinds_mem_spellings
    (count : Nat) :
    moduleKinds count ∈ (moduleTree count).spellings := by
  have hName :
      TokenKind.ofWord "generated" =
        .identifier "generated" := by
    decide
  have hFunctions :
      (List.range count).flatMap functionKinds ∈
        ((List.range count).map fun n =>
          (Definition.function
            (functionTree n)).spellings).prod :=
    flatMap_mem_prod fun n _ =>
      functionKinds_mem_spellings n
  rw [moduleTree, SourceFile.spellings, List.map_singleton,
    List.prod_singleton]
  simp only [Definition.spellings, Module.spellings,
    Module.definitionSpellings_eq, moduleKinds, named,
    Identifier.spellings, hName, List.map_map]
  refine Language.append_mem_mul ?_ rfl
  refine Language.append_mem_mul ?_ hFunctions
  simp [Keyword.written, Punct.written, mul_assoc,
    TokenKind.cons_mem_written_mul_iff,
    TokenKind.mem_written_iff]

/-
  No token of a generated function is a comment or an error.
-/
theorem isOrdinary_of_mem_functionKinds
    {n : Nat}
    {kind : TokenKind}
    (hMem : kind ∈ functionKinds n) :
    kind.IsOrdinary := by
  have hFixed :
      ∀ k ∈ headKinds ++ signatureKinds ++ tailKinds,
        k.IsOrdinary := by
    decide
  simp only [functionKinds, List.mem_append,
    List.mem_cons] at hMem hFixed
  rcases hMem with hMem | rfl | hMem | rfl | hMem
  · exact hFixed kind (.inl (.inl hMem))
  · exact TokenKind.isOrdinary_ofWord _
  · exact hFixed kind (.inl (.inr hMem))
  · trivial
  · exact hFixed kind (.inr hMem)

theorem isOrdinary_of_mem_moduleKinds
    {count : Nat}
    {kind : TokenKind}
    (hMem : kind ∈ moduleKinds count) :
    kind.IsOrdinary := by
  simp only [moduleKinds, List.mem_append, List.mem_cons,
    List.mem_flatMap, List.not_mem_nil, or_false] at hMem
  rcases hMem with
    ((rfl | rfl | rfl) | ⟨n, -, hMem⟩) | rfl
  · trivial
  · trivial
  · trivial
  · exact isOrdinary_of_mem_functionKinds hMem
  · trivial

------------------------------------------------------------
-- Characters
------------------------------------------------------------

/- What stands in front of the name of a function. -/
def headText : String :=
  "\n    pub fn"

/- What stands between the name and the number. -/
def signatureText : String :=
  "(a: u64, b: &mut (bool, address)) -> u64 \x7b\n" ++
    "        let x: u64 ="

/- What stands behind the number. -/
def tailText : String :=
  ";\n        match a \x7b Some(v) => v; _ => x \x7d\n" ++
    "    \x7d"

/- A generated function behind a line feed. -/
def functionChars
    (n : Nat) : List Char :=
  headText.toList ++ (' ' :: ("f" ++ toString n).toList ++
    (signatureText.toList ++ (' ' :: (toString n).toList ++
      tailText.toList)))

/- A word or a number ends at a line feed. -/
theorem startsBlank_lineFeed
    (rest : List Char) :
    StartsBlank ('\n' :: rest) := by
  change Text.IsBlank '\n'
  decide

/-
  The first line of a function starts with a line feed, so
  that whatever stands in front of it ends there.
-/
theorem toList_headText :
    headText.toList = '\n' :: "    pub fn".toList := by
  decide

theorem startsBlank_functionChars
    (n : Nat)
    (rest : List Char) :
    StartsBlank (functionChars n ++ rest) := by
  rw [functionChars, toList_headText, List.append_assoc,
    List.cons_append]
  exact startsBlank_lineFeed _

/- The text in front of the name is two keywords. -/
theorem isScannedAs_headText :
    Scanner.IsScannedAs StartsBlank headText.toList
      headKinds :=
  .of_tokenize (by decide +kernel) (by decide) (by decide)

/-
  What stands between the name and the number is scanned as
  its tokens.
-/
theorem isScannedAs_signatureText :
    Scanner.IsScannedAs StartsBlank signatureText.toList
      signatureKinds :=
  .of_tokenize (by decide +kernel) (by decide) (by decide)

/- So is what stands behind the number. -/
theorem isScannedAs_tailText :
    Scanner.IsScannedAs StartsBlank tailText.toList
      tailKinds :=
  .of_tokenize (by decide +kernel) (by decide) (by decide)

/- The name of a generated function is one word. -/
theorem isScannedAs_functionName
    (n : Nat) :
    Scanner.IsScannedAs EndsWord
      ("f" ++ toString n).toList
      [.ofWord ("f" ++ toString n)] := by
  have hChars :
      ("f" ++ toString n).toList =
        'f' :: (toString n).toList := by
    simp
  have hDigits :
      ∀ d ∈ (toString n).toList,
        Lexeme.ContinuesWord d := by
    intro d hMem
    rw [Text.toList_toString] at hMem
    exact Or.inr (Text.isDigit_of_mem_toDigits hMem)
  have hText :
      Lexeme.TokenText ("f" ++ toString n).toList
        (.ofWord ("f" ++ toString n)) := by
    have hWord := Lexeme.TokenText.word
      (show Lexeme.StartsWord 'f' by decide) hDigits
    rw [← hChars, String.ofList_toList] at hWord
    exact hWord
  refine .of_longest fun rest hEnds => ?_
  exact
    Lexeme.isLongest_word hText
      (TokenKind.word?_ofWord _) hEnds

/- The number of a generated function is one token. -/
theorem isScannedAs_number
    {n : Nat}
    (hBelow : n < Nat.pow 2 64) :
    Scanner.IsScannedAs EndsWord (toString n).toList
      [.number (some n) none] := by
  have hValue : Lexeme.literalValue? n = some n := by
    unfold Lexeme.literalValue?
    exact if_pos (Nat.lt_trans hBelow (by decide))
  have hText :
      Lexeme.TokenText (toString n).toList
        (.number (some n) none) := by
    have hNumeral := (Numeral.ofValue n none).tokenText
    rw [Numeral.value_ofValue, hValue,
      Numeral.text_ofValue] at hNumeral
    exact hNumeral
  refine .of_longest fun rest hEnds => ?_
  cases hDigits : (toString n).toList with
  | nil =>
      rw [hDigits] at hText
      exact absurd rfl hText.ne_nil
  | cons c cs =>
      have hDigit : Text.IsDigit c := by
        apply Text.isDigit_of_mem_toDigits (n := n)
        rw [← Text.toList_toString, hDigits]
        exact .head _
      rw [hDigits] at hText
      exact Lexeme.isLongest_number hText hDigit hEnds

/- A generated function is scanned as its tokens. -/
theorem isScannedAs_functionChars
    {n : Nat}
    (hBelow : n < Nat.pow 2 64) :
    Scanner.IsScannedAs StartsBlank (functionChars n)
      (functionKinds n) := by
  have hName :=
    (isScannedAs_functionName n).blank (by simp)
  have hNumber :=
    (isScannedAs_number hBelow).blank (by simp)
  have hEnds :
      ∀ c rest, ¬ Lexeme.ContinuesWord c →
        EndsWord (c :: rest) :=
    fun _ _ hOther => hOther
  have hBlank : ∀ rest, StartsBlank (' ' :: rest) := by
    intro rest
    change Text.IsBlank ' '
    decide
  refine isScannedAs_headText.append (hName.append ?_ ?_) ?_
  · refine
      isScannedAs_signatureText.append
        (hNumber.append isScannedAs_tailText ?_) ?_
    · intro rest _
      exact hEnds ';' _ (by decide)
    · intro rest _
      exact hBlank _
  · intro rest _
    exact hEnds '(' _ (by decide)
  · intro rest _
    exact hBlank _

/- A generated module but for the line feed at its end. -/
def moduleChars
    (count : Nat) : List Char :=
  "mod generated \x7b".toList ++
    ((List.range count).flatMap functionChars ++
      "\n\x7d".toList)

/-
  The characters of a module are scanned as its tokens,
  while its numbers fit the type that they have.
-/
theorem isScannedAs_moduleChars
    {count : Nat}
    (hBelow : count < Nat.pow 2 64) :
    Scanner.IsScannedAs StartsBlank (moduleChars count)
      (moduleKinds count) := by
  have hOpen :
      Scanner.IsScannedAs StartsBlank
        "mod generated \x7b".toList
        [.keyword .modKw, .identifier "generated",
          .punct .leftBrace] :=
    .of_tokenize (by decide +kernel) (by decide) (by decide)
  have hClose :
      Scanner.IsScannedAs StartsBlank "\n\x7d".toList
        [.punct .rightBrace] :=
    .of_tokenize (by decide +kernel) (by decide) (by decide)
  have hCloses :
      ∀ rest, StartsBlank ("\n\x7d".toList ++ rest) :=
    fun rest => startsBlank_lineFeed ('\x7d' :: rest)
  have hFunctions :
      Scanner.IsScannedAs StartsBlank
        ((List.range count).flatMap functionChars)
        ((List.range count).flatMap functionKinds) := by
    refine .flatMap ?_
      (fun n _ => startsBlank_functionChars n)
    intro n hMem
    have hLess := List.mem_range.mp hMem
    exact isScannedAs_functionChars (by omega)
  rw [moduleKinds, List.append_assoc]
  refine hOpen.append (hFunctions.append hClose ?_) ?_
  · intro rest _
    exact hCloses rest
  · intro rest _
    rw [List.append_assoc]
    cases List.range count with
    | nil => exact hCloses rest
    | cons n more =>
        rw [List.flatMap_cons, List.append_assoc]
        exact startsBlank_functionChars n _

/- The line feed behind a function, put in front of it. -/
theorem toList_generatedFunction
    (n : Nat) :
    '\n' :: (generatedFunction n).toList =
      functionChars n ++ ['\n'] := by
  have hHead
      (rest : List Char) :
      headText.toList ++ ' ' :: ("f".toList ++ rest) =
        '\n' :: ("    pub fn f".toList ++ rest) := by
    rfl
  have hSignature
      (rest : List Char) :
      signatureText.toList ++ ' ' :: rest =
        "(a: u64, b: &mut (bool, address)) -> u64 \x7b".toList ++
          ("\n".toList ++
            ("        let x: u64 = ".toList ++ rest)) := by
    have hFixed :
        signatureText.toList ++ [' '] =
          "(a: u64, b: &mut (bool, address)) -> u64 \x7b".toList ++
            ("\n".toList ++
              "        let x: u64 = ".toList) := by
      decide
    rw [List.append_cons, hFixed]
    simp only [List.append_assoc]
  have hTail :
      tailText.toList ++ ['\n'] =
        ";".toList ++ ("\n".toList ++
          ("        match a \x7b Some(v) => v; _ => x \x7d".toList ++
            ("\n".toList ++
              ("    \x7d".toList ++ "\n".toList)))) := by
    decide
  simp only [generatedFunction, ofLines, functionChars,
    String.toList_join, String.toList_append, List.map_cons,
    List.map_nil, List.flatMap_cons, List.flatMap_nil,
    List.cons_append, List.append_assoc, List.append_nil]
  rw [hHead, hSignature, hTail]

/- The same holds of any number of functions in a row. -/
theorem toList_generatedFunctions
    (ns : List Nat)
    (rest : List Char) :
    '\n' ::
        (ns.flatMap
            (fun n => (generatedFunction n).toList) ++
          rest) =
      ns.flatMap functionChars ++ '\n' :: rest := by
  induction ns with
  | nil => rfl
  | cons n ns ih =>
      rw [List.flatMap_cons, List.flatMap_cons,
        List.append_assoc, List.append_assoc, ← ih,
        ← List.cons_append, toList_generatedFunction,
        List.append_assoc, List.singleton_append]

/-
  A generated module is these characters and a line feed.
-/
theorem generatedModule_eq
    (count : Nat) :
    generatedModule count =
      String.ofList (moduleChars count ++ ['\n']) := by
  have hOpen :
      "mod generated \x7b\n".toList =
        "mod generated \x7b".toList ++ ['\n'] := by
    decide
  have hClose :
      "\n\x7d".toList ++ ['\n'] =
        '\n' :: "\x7d\n".toList := by
    decide
  rw [← String.toList_inj]
  unfold generatedModule moduleChars
  rw [String.toList_ofList]
  simp only [String.toList_append, String.toList_join,
    List.flatMap_map]
  simp only [List.append_assoc]
  rw [hOpen, hClose, List.append_assoc,
    List.singleton_append, toList_generatedFunctions]

------------------------------------------------------------
-- Parsing
------------------------------------------------------------

section Names

variable {name : String}
variable (hName : TokenKind.ofWord name = .identifier name)

include hName

/- A name that is no keyword begins with no keyword. -/
theorem not_beginsWith_pathTo
    {word : String}
    (hOther : TokenKind.ofWord word ≠ .identifier word) :
    ¬ (pathTo name).BeginsWith word := by
  intro hBegins
  have hSame : name = word :=
    Path.beginsWith_cons.mp hBegins
  rw [hSame] at hName
  exact hOther hName

/- So it stands for an expression or for a pattern. -/
theorem isExpressionPath_pathTo :
    (pathTo name).IsExpressionPath := by
  refine ⟨List.cons_ne_nil _ _, ?_, ?_⟩
  · intro b
    exact not_beginsWith_pathTo hName (by simp)
  · exact not_beginsWith_pathTo hName (by simp)

theorem isPatternPath_pathTo :
    (pathTo name).IsPatternPath := by
  refine ⟨List.cons_ne_nil _ _, ?_, ?_⟩
  · intro b
    exact not_beginsWith_pathTo hName (by simp)
  · exact not_beginsWith_pathTo hName (by simp)

end Names

theorem keywordWins_tailTree :
    tailTree.KeywordWins := by
  have hSome : (pathTo "Some").IsPatternPath :=
    isPatternPath_pathTo (by decide)
  have hV : (pathTo "v").IsPatternPath :=
    isPatternPath_pathTo (by decide)
  refine
    .mk (.path (isExpressionPath_pathTo (by decide))) ?_
  intro a hArm
  simp only [List.mem_cons, List.not_mem_nil,
    or_false] at hArm
  rcases hArm with rfl | rfl
  · refine
      .mk (.tupleStruct hSome ?_)
        (.path (isExpressionPath_pathTo (by decide)))
    intro p hMem
    rw [List.mem_singleton.mp hMem]
    exact .identifier hV
  · exact
      .mk .wildcard
        (.path (isExpressionPath_pathTo (by decide)))

/-
  No name in a generated function is taken for a keyword.
-/
theorem keywordWins_functionTree
    (n : Nat) :
    (functionTree n).KeywordWins := by
  refine ⟨?_, ?_, .mk ?_ ?_ ?_⟩
  · intro p hMem
    simp only [functionTree, List.mem_cons,
      List.not_mem_nil, or_false] at hMem
    rcases hMem with rfl | rfl
    · exact .primitive
    · refine .reference (by simp) (.tuple ?_)
      intro ty hMem
      simp only [List.mem_cons, List.not_mem_nil,
        or_false] at hMem
      rcases hMem with rfl | rfl
      · exact .primitive
      · exact .primitive
  · intro ty hMem
    rw [← Option.some.inj hMem]
    exact .primitive
  · intro s hMem
    rw [List.mem_singleton.mp hMem]
    refine .binding (.mk ?_ ?_ ?_)
    · intro _
      decide
    · intro ty hMem
      rw [← Option.some.inj hMem]
      exact .primitive
    · intro e hMem
      rw [← Option.some.inj hMem]
      exact .literal
  · intro e hMem
    rw [← Option.some.inj hMem]
    exact .matching keywordWins_tailTree
  · intro e hMem
    rw [← Option.some.inj hMem]
    exact fun hBegins => hBegins

/- Nor is any name in a generated module. -/
theorem keywordWins_moduleTree
    (count : Nat) :
    (moduleTree count).KeywordWins := by
  intro d hMem
  rw [List.mem_singleton.mp hMem]
  refine .module (.mk ?_)
  intro d hMem
  rcases List.mem_map.mp hMem with ⟨n, -, rfl⟩
  exact .function (keywordWins_functionTree n)

/- No generated function is high, so no module is. -/
theorem height_moduleTree_le
    (count : Nat) :
    (moduleTree count).height ≤ defaultLimit := by
  have hFunction
      (n : Nat) :
      (Definition.function (functionTree n)).height = 5 :=
    rfl
  simp only [moduleTree, SourceFile.height,
    highest_map_le_iff, List.forall_mem_singleton,
    Definition.height, Module.height,
    Module.definitionHeights_eq]
  have hFunctions :
      highest
          (((List.range count).map
            (fun n => Definition.function
              (functionTree n))).map Definition.height) ≤
        5 := by
    rw [highest_map_le_iff]
    intro d hMem
    rcases List.mem_map.mp hMem with ⟨n, -, rfl⟩
    exact Nat.le_of_eq (hFunction n)
  have hLimit : 6 ≤ defaultLimit := by decide
  omega

/- What a generated function is, wherever it stands. -/
structure IsGenerated
    (n : Nat)
    (f : Function) : Prop where
  isPub : f.isPub = true
  name_eq : f.name.name = "f" ++ toString n
  length_params : f.params.length = 2
  statements_eq :
    ∃ b span,
      f.body.statements = [.binding b] ∧
      b.value =
        some (.literal ⟨.number (some n) none, span⟩)
  tail_eq :
    ∃ m,
      f.body.tail = some (.matching m) ∧ m.arms.length = 2

/- A `let` with the shape of a number keeps the number. -/
theorem value_of_mapSpans
    {n : Nat}
    {b : LetBinding}
    (hSame :
      (b.mapSpans .forget).value =
        some ((number n).mapSpans .forget)) :
    ∃ span,
      b.value =
        some (.literal ⟨.number (some n) none, span⟩) := by
  rcases b with ⟨isMut, name, ty, value, span⟩
  rw [LetBinding.mapSpans,
    Expression.mapOptionSpans_eq] at hSame
  rcases Option.map_eq_some_iff.mp hSame with
    ⟨e, rfl, hLiteral⟩
  cases e with
  | literal l =>
      rcases l with ⟨value, place⟩
      have hValue : value = .number (some n) none :=
        congrArg Literal.value
          (Expression.literal.inj hLiteral)
      exact ⟨place, by rw [hValue]⟩
  | _ => cases hLiteral

/- A function with the shape of a generated one is one. -/
theorem exists_isGenerated
    {n : Nat}
    {d : Definition}
    (hSame :
      d.mapSpans .forget =
        (Definition.function (functionTree n)).mapSpans
          .forget) :
    ∃ f, d = .function f ∧ IsGenerated n f := by
  cases d with
  | function f =>
      have hFunction := Definition.function.inj hSame
      rcases f with
        ⟨isPub, name, typeParams, params, returnType,
          ⟨statements, tail, place⟩, span⟩
      have hParams := congrArg Function.params hFunction
      have hBody := congrArg Function.body hFunction
      simp only [Function.mapSpans, Block.mapSpans,
        Block.mapStatementSpans_eq,
        Expression.mapOptionSpans_eq, functionTree,
        Block.mk.injEq] at hParams hBody
      rcases hBody with ⟨hStatements, hTail, -⟩
      refine
        ⟨_, rfl, congrArg Function.isPub hFunction,
          congrArg (fun g => g.name.name) hFunction, ?_, ?_,
          ?_⟩
      · have hLength := congrArg List.length hParams
        rw [List.length_map, List.length_map] at hLength
        exact hLength
      · rcases List.map_eq_singleton_iff.mp hStatements with
          ⟨s, rfl, hStatement⟩
        cases s with
        | expression value span => cases hStatement
        | binding b =>
            have hValue :=
              congrArg LetBinding.value
                (Statement.binding.inj hStatement)
            rcases value_of_mapSpans hValue with
              ⟨span, hNumber⟩
            exact ⟨b, span, rfl, hNumber⟩
      · rcases Option.map_eq_some_iff.mp hTail with
          ⟨e, rfl, hMatch⟩
        cases e with
        | matching m =>
            rcases m with ⟨value, arms, span⟩
            have hArms :=
              congrArg Match.arms
                (Expression.matching.inj hMatch)
            rw [Match.mapSpans,
              Match.mapArmSpans_eq] at hArms
            have hLength := congrArg List.length hArms
            rw [List.length_map] at hLength
            exact ⟨_, rfl, hLength⟩
        | _ => cases hMatch
  | _ => cases hSame

/-
  A generated module is parsed as one module with as many
  functions as were asked for, each the one of its place.
-/
theorem parse_generatedModule
    {count : Nat}
    (hBelow : count < Nat.pow 2 64) :
    ∃ f m,
      SourceFile.parse (generatedModule count)
          defaultLimit =
        .ok f ∧
      f.definitions = [.module m] ∧
      f.comments = [] ∧
      m.name.name = "generated" ∧
      m.definitions.length = count ∧
      ∀ n d, m.definitions[n]? = some d →
        ∃ g, d = .function g ∧ IsGenerated n g := by
  have hTokens :=
    (isScannedAs_moduleChars hBelow).map_kind_tokenize
      (startsBlank_lineFeed [])
      (List.forall_mem_singleton.mpr (by decide))
  rw [← generatedModule_eq] at hTokens
  have hKinds :
      ∀ kind ∈ moduleKinds count, kind.IsOrdinary :=
    fun _ => isOrdinary_of_mem_moduleKinds
  have hSpelled := moduleKinds_mem_spellings count
  rw [← significantKinds_of_ordinary hTokens hKinds]
    at hSpelled
  rcases SourceFile.exists_parse
      (keywordWins_moduleTree count) hSpelled
      (height_moduleTree_le count) with
    ⟨f, hParse, hShape⟩
  have hComments : f.comments = [] := by
    rcases SourceFile.parse_eq_ok_iff.mp hParse with
      ⟨-, -, hComments, -⟩
    rw [hComments]
    exact commentsOf_of_ordinary hTokens hKinds
  have hDefinitions :=
    congrArg SourceFile.definitions hShape
  rcases List.map_eq_singleton_iff.mp hDefinitions with
    ⟨d, hOne, hModule⟩
  cases d with
  | module m =>
      rcases m with ⟨name, ds, span⟩
      have hSame := Definition.module.inj hModule
      simp only [Module.mapSpans,
        Module.mapDefinitionSpans_eq,
        Module.mk.injEq] at hSame
      rcases hSame with ⟨hName, hFunctions, -⟩
      have hLength : ds.length = count := by
        have hLengths := congrArg List.length hFunctions
        simpa using hLengths
      refine
        ⟨f, _, hParse, hOne, hComments,
          congrArg Identifier.name hName, hLength, ?_⟩
      intro n d hPlace
      rcases List.getElem?_eq_some_iff.mp hPlace with
        ⟨hInside, -⟩
      rw [hLength] at hInside
      have hEach := congrArg (fun ds => ds[n]?) hFunctions
      simp only [List.getElem?_map, hPlace,
        List.getElem?_range hInside, Option.map_some,
        Option.some.injEq] at hEach
      exact exists_isGenerated hEach
  | _ => cases hModule

end Sample

end FeSyntax
