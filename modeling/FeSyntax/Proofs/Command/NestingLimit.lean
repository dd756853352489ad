import FeSyntax.Proofs.Command.Files
import FeSyntax.Proofs.Highlighting.Page
import FeSyntax.Proofs.Parsing.Threshold
import FeSyntax.Proofs.Text.Decimal

/-
  This file proves what the nesting limit of a command line
  does to its formats.  Syntax trees are parsed under the
  limit that is asked for.  Highlights are not: their roles
  are always those under the default limit.

  Key definitions include:
    * `Options.inFormat`
    * `Request.argumentsFor`

  Key theorems include:
    * `Options.run_of_input`
    * `Request.ofArguments_argumentsFor`
    * `RoleTable.page_upTo_eq_iff`
    * `Request.highlights_ignore_limit`
-/

namespace FeSyntax

------------------------------------------------------------
-- Runs On The Input
------------------------------------------------------------

namespace Options

/- A run without files prints its input, or reports it. -/
theorem run_of_input
    {o : Options}
    {w : Surroundings}
    {source : String}
    {handle : GrammarHandle}
    (hLoad : o.loadGrammar w = .ok handle)
    (hInput : w.inputText = .ok source)
    (hFiles : o.files = [])
    (hInfo : o.languageInfo = false)
    (hDump : o.dumpArtifact = false) :
    let rendering : Rendering :=
      (o.sessionOf handle).render o.outputFormat source
    o.run w =
      ⟨if Rendering.Fails rendering then 1 else 0,
        Rendering.shown rendering,
        Rendering.reported "<stdin>" rendering⟩ := by
  intro rendering
  have hAbout : o.grammarText handle.grammar = "" := by
    rw [grammarText, hInfo, hDump]
    rfl
  have hRender :
      o.renderInput (o.sessionOf handle) w = rendering := by
    rw [renderInput, hInput]
    rfl
  have hRun :
      o.run w = o.renderAll (o.sessionOf handle) w "" := by
    simp only [run, hLoad, hInfo, hDump, hAbout,
      openSession_of_loadGrammar hLoad, Bool.false_eq_true,
      or_self, and_false, if_false]
  rw [hRun]
  simp only [renderAll, hFiles, hRender, String.empty_append]
  cases rendering <;> rfl

/- The options of a run in a format, under a limit or not. -/
def inFormat
    (format : OutputFormat)
    (limit : Option Nat) : Options :=
  { empty with limit, format := some format }

end Options

------------------------------------------------------------
-- Arguments That Set A Limit
------------------------------------------------------------

/- A number is read back as a nesting limit. -/
theorem parseLimit?_toString
    {n : Nat}
    (hBelow : n < Session.limitBound) :
    parseLimit? (toString n) = some n := by
  rw [parseLimit?, Text.toList_toString]
  have hRead := Text.decimalBelow?_toDigits hBelow
  split
  next digits hPlus =>
    exact absurd hPlus (Text.toDigits_ne_cons (by decide))
  next => exact hRead

/- A number does not look like an option. -/
theorem looksLikeOption_toString
    (n : Nat) :
    looksLikeOption (toString n) = false := by
  rw [looksLikeOption, Text.toList_toString]
  split
  next hHyphen =>
    exact absurd hHyphen (Text.toDigits_ne_cons (by decide))
  next => rfl

/- No name of a format looks like an option. -/
theorem looksLikeOption_of_ofName?
    {name : String}
    {format : OutputFormat}
    (hName : OutputFormat.ofName? name = some format) :
    looksLikeOption name = false := by
  unfold OutputFormat.ofName? at hName
  split at hName
  all_goals
    first
    | rfl
    | cases hName

namespace Request

/- A setting takes the argument behind it as its value. -/
theorem readArguments_setting
    {s : Setting}
    {value : String}
    {o o' : Options}
    (hValue : looksLikeOption value = false)
    (hSet : s.set value o = .ok o')
    (rest : List String) :
    readArguments o (s.long :: value :: rest) =
      readArguments o' rest := by
  have hRead :
      readArguments o (s.long :: value :: rest) =
        readValue s o (value :: rest) := by
    cases s <;> rfl
  rw [hRead, readValue, hValue, hSet]
  rfl

/- Arguments that ask for a format, under a limit or not. -/
def argumentsFor
    (name : String) : Option Nat → List String
  | none => ["--format", name]
  | some n =>
      ["--max-depth", toString n, "--format", name]

/- They are read as what they ask for. -/
theorem ofArguments_argumentsFor
    {name : String}
    {format : OutputFormat}
    {limit : Option Nat}
    (hName : OutputFormat.ofName? name = some format)
    (hBelow : ∀ n ∈ limit, n < Session.limitBound) :
    ofArguments (argumentsFor name limit) =
      .ok (.run (.inFormat format limit)) := by
  have hFormat
      {o : Options}
      (hUnset : o.format = none) :
      readArguments o ["--format", name] =
        .ok (.run { o with format := some format }) := by
    have hSet :
        Setting.format.set name o =
          .ok { o with format := some format } := by
      simp [Setting.set, Setting.assign, Setting.isSet,
        hName, hUnset]
    exact
      readArguments_setting
        (looksLikeOption_of_ofName? hName) hSet []
  cases limit with
  | none => exact hFormat rfl
  | some n =>
      have hSet :
          Setting.limit.set (toString n) .empty =
            .ok { Options.empty with limit := some n } := by
        rw [Setting.set, Setting.assign,
          parseLimit?_toString (hBelow n rfl)]
        rfl
      exact
        (readArguments_setting (looksLikeOption_toString n)
          hSet _).trans (hFormat rfl)

end Request

------------------------------------------------------------
-- Pages Under Two Limits
------------------------------------------------------------

theorem isPlain_iff_page_eq
    {source : String}
    {limit : Nat}
    {f : SourceFile}
    (hParse : SourceFile.parse source limit = .ok f) :
    f.IsPlain ↔
      (RoleTable.ofFile f).page source =
        (∅ : RoleTable).page source := by
  rw [SourceFile.isPlain_iff hParse]
  simp only [RoleTable.page_eq_iff, RoleTable.shownAs_empty]

/- A text has one file, or none, to be plain. -/
theorem forall_isPlain_iff
    {source : String}
    {limit : Nat}
    {f : SourceFile}
    (hParse : SourceFile.parse source limit = .ok f) :
    (∀ g n, SourceFile.parse source n = .ok g → g.IsPlain) ↔
      f.IsPlain := by
  constructor
  · exact fun hPlain => hPlain f limit hParse
  · intro hPlain g n hOther
    rw [SourceFile.parse_unique hOther hParse]
    exact hPlain

/-
  Two limits give one page just if the text parses under
  both or neither of them, or its file is plain.
-/
theorem RoleTable.page_upTo_eq_iff
    {source : String}
    {first second : Nat} :
    (upTo first source).page source =
        (upTo second source).page source ↔
      ((∃ f, SourceFile.parse source first = .ok f) ↔
        ∃ f, SourceFile.parse source second = .ok f) ∨
      ∀ f limit,
        SourceFile.parse source limit = .ok f →
        f.IsPlain := by
  cases hFirst : SourceFile.parse source first with
  | ok f =>
      rw [upTo_of_ok hFirst, forall_isPlain_iff hFirst]
      cases hSecond : SourceFile.parse source second with
      | ok g =>
          rw [upTo_of_ok hSecond,
            SourceFile.parse_unique hFirst hSecond]
          simp
      | error e =>
          rw [upTo_of_error hSecond,
            isPlain_iff_page_eq hFirst]
          simp
  | error e =>
      rw [upTo_of_error hFirst]
      cases hSecond : SourceFile.parse source second with
      | ok g =>
          rw [upTo_of_ok hSecond, forall_isPlain_iff hSecond,
            isPlain_iff_page_eq hSecond, eq_comm]
          simp
      | error e =>
          rw [upTo_of_error hSecond]
          simp

------------------------------------------------------------
-- Runs In Two Formats
------------------------------------------------------------

/- A tree is rendered if the text parses under the limit. -/
theorem Options.not_fails_sexp_iff
    (limit : Option Nat)
    (source : String) :
    ¬ Rendering.Fails
        (((inFormat .sexp limit).sessionOf .builtin).render
          .sexp source) ↔
      ∃ f,
        SourceFile.parse source (limit.getD defaultLimit) =
          .ok f := by
  rw [Session.render, Session.parseRoot, Session.parse]
  have hLevels :
      ((inFormat .sexp limit).sessionOf .builtin).limit =
        limit.getD defaultLimit :=
    rfl
  rw [hLevels]
  cases hParse :
      SourceFile.parse source (limit.getD defaultLimit) with
  | ok f => simp [sessionOf, Rendering.Fails, Except.map]
  | error e => simp [sessionOf, Rendering.Fails, Except.map]

namespace Request

section Formats

variable {limit : Option Nat}
variable {w : Surroundings}
variable {source : String}
variable
  (hBelow : ∀ n ∈ limit, n < Session.limitBound)
  (hInput : w.inputText = .ok source)

include hBelow hInput

/- What a run in a format does to its input. -/
theorem result_argumentsFor
    {name : String}
    {format : OutputFormat}
    (hName : OutputFormat.ofName? name = some format) :
    let rendering : Rendering :=
      ((Options.inFormat format limit).sessionOf
        .builtin).render format source
    result (ofArguments (argumentsFor name limit)) w =
      ⟨if Rendering.Fails rendering then 1 else 0,
        Rendering.shown rendering,
        Rendering.reported "<stdin>" rendering⟩ := by
  rw [ofArguments_argumentsFor hName hBelow, result]
  exact Options.run_of_input
    (Options.loadGrammar_of_none rfl w) hInput
    rfl rfl rfl

/- The limit that is asked for settles if a tree is there. -/
theorem code_sexp_eq_zero_iff :
    (result (ofArguments (argumentsFor "sexp" limit))
        w).code = 0 ↔
      ∃ f,
        SourceFile.parse source (limit.getD defaultLimit) =
          .ok f := by
  rw [result_argumentsFor hBelow hInput rfl,
    ← Options.not_fails_sexp_iff]
  simp

/- Highlights have the roles under the default limit. -/
theorem result_highlight
    (hNone : NoErrors (tokenize source)) :
    result (ofArguments (argumentsFor "highlight" limit)) w =
      ⟨0,
        (RoleTable.upTo defaultLimit source).page source ++
          "\n",
        ""⟩ := by
  rw [result_argumentsFor hBelow hInput rfl,
    Session.render_highlight hNone]
  rfl

end Formats

------------------------------------------------------------
-- Main Result
------------------------------------------------------------

/-
  The nesting limit is not for highlights.  On a text
  without invalid tokens, `--max-depth` settles whether
  trees are rendered, but highlights always have the roles
  under the default limit.  They are those under the limit
  that is asked for just if the text parses under both
  limits or neither, or if its file is plain.
-/
theorem highlights_ignore_limit
    {limit : Option Nat}
    {w : Surroundings}
    {source : String}
    (hBelow : ∀ n ∈ limit, n < Session.limitBound)
    (hInput : w.inputText = .ok source)
    (hNone : NoErrors (tokenize source)) :
    let outcome := fun name =>
      result (ofArguments (argumentsFor name limit)) w
    let levels := limit.getD defaultLimit
    let printed := fun table : RoleTable =>
      CommandResult.mk 0 (table.page source ++ "\n") ""
    ((outcome "sexp").code = 0 ↔
      ∃ f, SourceFile.parse source levels = .ok f) ∧
    outcome "highlight" =
      printed (.upTo defaultLimit source) ∧
    (outcome "highlight" = printed (.upTo levels source) ↔
      ((∃ f, SourceFile.parse source levels = .ok f) ↔
        ∃ f,
          SourceFile.parse source defaultLimit = .ok f) ∨
      ∀ f n,
        SourceFile.parse source n = .ok f → f.IsPlain) := by
  intro outcome levels printed
  have hHighlight := result_highlight hBelow hInput hNone
  refine
    ⟨code_sexp_eq_zero_iff hBelow hInput, hHighlight, ?_⟩
  have hSame
      (first second : RoleTable) :
      printed first = printed second ↔
        first.page source = second.page source := by
    simp [printed]
  rw [← RoleTable.page_upTo_eq_iff, eq_comm, ← hSame]
  exact iff_of_eq (congrArg _ hHighlight)

/- A function without anything in it takes two levels. -/
def shortFunction : String :=
  "fn f() \x7b\x7d"

def shortInput : Surroundings where
  input := .ok shortFunction.toUTF8
  readFile _ := .error (.system 2)

theorem inputText_shortInput :
    shortInput.inputText = .ok shortFunction := by
  decide +kernel

theorem parse_shortFunction_of_one :
    ¬ ∃ f, SourceFile.parse shortFunction 1 = .ok f := by
  rintro ⟨f, hParse⟩
  have hFails :
      (SourceFile.parse shortFunction 1).isOk = false := by
    decide +kernel
  rw [hParse] at hFails
  cases hFails

theorem exists_parse_shortFunction :
    ∃ f,
      SourceFile.parse shortFunction defaultLimit = .ok f ∧
      ¬ f.IsPlain := by
  have hRoles :
      (SourceFile.parse shortFunction
        defaultLimit).toOption.any
          (fun f => f.roles ≠ []) = true := by
    decide +kernel
  cases hParse :
      SourceFile.parse shortFunction defaultLimit with
  | error e =>
      rw [hParse] at hRoles
      cases hRoles
  | ok f =>
      rw [hParse] at hRoles
      have hSome : f.roles ≠ [] := of_decide_eq_true hRoles
      rcases List.exists_mem_of_ne_nil _ hSome with
        ⟨⟨i, c⟩, hMem⟩
      have hRole := SourceFile.mem_roles_iff.mp hMem
      exact
        ⟨f, rfl, fun hPlain =>
          (hPlain i hRole.has).1 c hRole⟩

theorem highlights_ignore_limit_shortFunction :
    (result (ofArguments (argumentsFor "sexp" (some 1)))
        shortInput).code ≠ 0 ∧
      result
          (ofArguments (argumentsFor "highlight" (some 1)))
          shortInput =
        ⟨0,
          (RoleTable.upTo defaultLimit shortFunction).page
              shortFunction ++ "\n",
          ""⟩ := by
  rcases exists_parse_shortFunction with ⟨f, hParse, -⟩
  have hBelow : ∀ n ∈ some 1, n < Session.limitBound := by
    decide
  rcases highlights_ignore_limit hBelow inputText_shortInput
      (SourceFile.noErrors_of_parse hParse) with
    ⟨hTree, hHighlight, -⟩
  exact
    ⟨fun hCode =>
      parse_shortFunction_of_one (hTree.mp hCode),
      hHighlight⟩

/-
  Under one level there is no tree, but what is printed is
  not what the kinds of the tokens alone give.
-/
theorem highlights_show_roles_beyond_limit :
    shortInput.inputText = .ok shortFunction ∧
      (result (ofArguments (argumentsFor "sexp" (some 1)))
          shortInput).code = 1 ∧
      (result
          (ofArguments (argumentsFor "highlight" (some 1)))
          shortInput).stdout ≠
        "\n".intercalate
            ((shownTokens shortFunction).map fun t =>
              t.record t.byKind.name) ++
          "\n" := by
  rcases exists_parse_shortFunction with
    ⟨f, hParse, hRoles⟩
  have hBelow : ∀ n ∈ some 1, n < Session.limitBound := by
    decide
  refine ⟨inputText_shortInput, by decide +kernel, ?_⟩
  rw [result_highlight hBelow inputText_shortInput
      (SourceFile.noErrors_of_parse hParse),
    ← RoleTable.page_empty, RoleTable.upTo_of_ok hParse]
  intro hSame
  refine hRoles ((isPlain_iff_page_eq hParse).mpr ?_)
  exact (String.append_left_inj "\n").mp hSame

end Request

end FeSyntax
