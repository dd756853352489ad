import FeSyntax.Command.Run
import FeSyntax.Proofs.Grammar.Artifact
import FeSyntax.Proofs.Grammar.Numbering
import FeSyntax.Proofs.Highlighting.TokenCover
import Mathlib.Data.List.Basic

/-
  This file proves that a run treats its files one by one.
  What it prints for a file and what it reports of it are
  the same as in a run on that file alone, whatever became
  of the files before, and the exit code says whether any
  of them failed.  A grammar that is loaded is usable, so a
  session always takes it.

  Key definitions include:
    * `Rendering`
    * `RendersTo`
    * `ArtifactProblem`
    * `Options.HasGrammar`
    * `Options.RendersFile`
    * `Progress.Behind`

  Key theorems include:
    * `Session.rendersTo_render`
    * `Options.exists_loadGrammar_error_iff`
    * `Options.validate_of_loadGrammar`
    * `Options.rendersFile_renderFile`
    * `Progress.Behind.step`
    * `Progress.Behind.nextAll`
    * `Options.run_of_files`
    * `Request.files_treated_alone`
-/

namespace FeSyntax

------------------------------------------------------------
-- Renderings
------------------------------------------------------------

/- How the rendering of one source text ends. -/
abbrev Rendering : Type :=
  Except RunError String

namespace Rendering

/- What is printed for a source text. -/
def shown : Rendering → String
  | .ok output => output ++ "\n"
  | .error _ => ""

/- What is reported of a source text with a name. -/
def reported
    (name : String) : Rendering → String
  | .ok _ => ""
  | .error e => name ++ ": " ++ e.report ++ "\n"

/- The source text was not rendered. -/
def Fails : Rendering → Prop
  | .ok _ => False
  | .error _ => True

instance :
    DecidablePred Fails
  | .ok _ => isFalse id
  | .error _ => isTrue trivial

end Rendering

/-
  What a source text is rendered to under a nesting limit.
  An S-expression and a JSON text are those of its syntax
  tree, if it parses.  The tokens and the highlights are
  records, each with a place, a label and the text there,
  unless there is an invalid token.
-/
inductive RendersTo
    (source : String)
    (limit : Nat) :
    OutputFormat → Rendering → Prop where
  | sexp
      {f : SourceFile}
      (hParse : SourceFile.parse source limit = .ok f) :
      RendersTo source limit .sexp (.ok f.sexp)
  | json
      {f : SourceFile}
      (hParse : SourceFile.parse source limit = .ok f) :
      RendersTo source limit .json (.ok f.encode.pretty)
  | unparsed
      {format : OutputFormat}
      {e : SyntaxError}
      (hTree : format = .sexp ∨ format = .json)
      (hParse : SourceFile.parse source limit = .error e) :
      RendersTo source limit format
        (.error (.invalidSource (.invalid e)))
  | tokens
      (hNone : NoErrors (tokenize source)) :
      RendersTo source limit .tokens
        (.ok
          ("\n".intercalate
            ((shownTokens source).map fun t =>
              toString t.span.line ++ ":" ++
                toString t.span.column ++ "\t" ++
                t.kind.label ++ "\t" ++ t.text)))
  | invalidToken
      {t : Token}
      {cause : LexError}
      (hFirst : FirstError (tokenize source) t cause) :
      RendersTo source limit .tokens
        (.error
          (.invalidToken cause t.span.line t.span.column))
  | highlights
      {highlights : List Highlight}
      (hShown : highlight source = .ok highlights) :
      RendersTo source limit .highlight
        (.ok
          ("\n".intercalate
            (highlights.map fun h =>
              toString h.token.span.line ++ ":" ++
                toString h.token.span.column ++ "\t" ++
                h.capture.name ++ "\t" ++ h.token.text)))
  | unhighlighted
      {e : SyntaxError}
      (hFails : highlight source = .error e) :
      RendersTo source limit .highlight
        (.error (.invalidSource (.invalid e)))

/- A session renders any text so, once it has a grammar. -/
theorem Session.rendersTo_render
    {s : Session}
    {handle : GrammarHandle}
    (hGrammar : s.grammar = some handle)
    (format : OutputFormat)
    (source : String) :
    RendersTo source s.limit format
      (s.render format source) := by
  have hRoot :
      s.parseRoot source =
        (SourceFile.parse source s.limit).mapError
          (fun e => .invalidSource (.invalid e)) := by
    simp only [parseRoot, parse, hGrammar]
    cases SourceFile.parse source s.limit <;> rfl
  cases format with
  | sexp =>
      rw [render, hRoot]
      cases hParse : SourceFile.parse source s.limit with
      | ok f => exact .sexp hParse
      | error e => exact .unparsed (.inl rfl) hParse
  | json =>
      rw [render, hRoot]
      cases hParse : SourceFile.parse source s.limit with
      | ok f => exact .json hParse
      | error e => exact .unparsed (.inr rfl) hParse
  | tokens =>
      rw [render]
      rcases noErrors_or_exists_firstError
          (tokenize source) with
        hNone | ⟨t, cause, hFirst⟩
      · rw [Token.records_of_noErrors hNone]
        exact .tokens hNone
      · rw [(highlight_of_firstError hFirst).2]
        exact .invalidToken hFirst
  | highlight =>
      rw [render]
      cases hHighlight : FeSyntax.highlight source with
      | ok highlights => exact .highlights hHighlight
      | error e => exact .unhighlighted hHighlight

------------------------------------------------------------
-- Grammars That Are Loaded
------------------------------------------------------------

/-
  Why there is no grammar in an artifact: it cannot be read,
  it cannot be decoded, or its grammar cannot be used.
-/
inductive ArtifactProblem
    (w : Surroundings)
    (path : String) : Prop where
  | unreadable
      {e : ReadError}
      (hText : w.fileText path = .error e)
  | undecodable
      {text : String}
      {e : GrammarError}
      (hText : w.fileText path = .ok text)
      (hDecoded : Grammar.ofArtifact text = .error e)
  | unusable
      {text : String}
      {g : Grammar}
      {e : GrammarError}
      (hText : w.fileText path = .ok text)
      (hDecoded : Grammar.ofArtifact text = .ok g)
      (hChecked : g.validate = .error e)

/-
  The grammar that a run has: the built-in one, or the one
  that its artifact is decoded to.
-/
inductive Options.HasGrammar
    (o : Options)
    (w : Surroundings) : Grammar → Prop where
  | builtin
      (hNone : o.artifact = none) :
      HasGrammar o w .builtin
  | ofArtifact
      {path text : String}
      {g : Grammar}
      (hPath : o.artifact = some path)
      (hText : w.fileText path = .ok text)
      (hDecoded : Grammar.ofArtifact text = .ok g) :
      HasGrammar o w g

/- A grammar that can be used is in its own artifact. -/
theorem Grammar.ofArtifact_of_validate
    {g : Grammar}
    (hValid : g.validate = .ok ()) :
    ofArtifact g.toArtifact = .ok g := by
  have hSupported := (validate_eq_ok_iff.mp hValid).1
  exact ofArtifact_of_isSupported hSupported

/- The built-in grammar can be used. -/
theorem validate_builtin :
    GrammarHandle.builtin.grammar.validate = .ok () := by
  decide +kernel

section Loading

variable {w : Surroundings}
variable {path : String}
variable {handle : GrammarHandle}

/- Loading an artifact ends with its grammar or a problem. -/
theorem loadArtifact_cases
    (w : Surroundings)
    (path : String) :
    (∃ handle text,
      loadArtifact w path = .ok handle ∧
      w.fileText path = .ok text ∧
      Grammar.ofArtifact text = .ok handle.grammar ∧
      handle.grammar.validate = .ok () ∧
      ¬ ArtifactProblem w path) ∨
    ∃ e,
      loadArtifact w path = .error e ∧
      ArtifactProblem w path := by
  rw [loadArtifact]
  cases hText : w.fileText path with
  | error e => exact .inr ⟨_, rfl, .unreadable hText⟩
  | ok text =>
      cases hDecoded : Grammar.ofArtifact text with
      | error e =>
          have hLoad :
              GrammarHandle.load 0 text = .error e := by
            rw [GrammarHandle.load, hDecoded]
            rfl
          refine .inr ⟨.unusable e, ?_, ?_⟩
          · simp only [hLoad]
          · exact .undecodable hText hDecoded
      | ok g =>
          have hLoad :
              GrammarHandle.load 0 text =
                .ok ⟨.loaded 0, g⟩ := by
            rw [GrammarHandle.load, hDecoded]
            rfl
          cases hChecked : g.validate with
          | error e =>
              refine .inr ⟨.unusable e, ?_, ?_⟩
              · simp only [hLoad, hChecked]
              · exact .unusable hText hDecoded hChecked
          | ok u =>
              refine
                .inl
                  ⟨⟨.loaded 0, g⟩, text, ?_, rfl, hDecoded,
                    hChecked, ?_⟩
              · simp only [hLoad, hChecked]
              · intro hProblem
                cases hProblem <;> simp_all

namespace Options

variable {o : Options}

/- Without an artifact the grammar is the built-in one. -/
theorem loadGrammar_of_none
    (hNone : o.artifact = none)
    (w : Surroundings) :
    o.loadGrammar w = .ok .builtin := by
  simp only [loadGrammar, hNone, validate_builtin]

/- Only an artifact can keep a run from its grammar. -/
theorem exists_loadGrammar_error_iff
    (o : Options)
    (w : Surroundings) :
    (∃ cause, o.loadGrammar w = .error cause) ↔
      ∃ path, o.artifact = some path ∧
        ArtifactProblem w path := by
  cases hArtifact : o.artifact with
  | none => simp [loadGrammar_of_none hArtifact]
  | some path =>
      unfold loadGrammar
      rcases loadArtifact_cases w path with
        ⟨handle, -, hLoad, -, -, -, hNone⟩ |
          ⟨e, hLoad, hSome⟩
      · simp [hArtifact, hLoad, hNone]
      · simp [hArtifact, hLoad, hSome]

/- A grammar that is loaded is the one of the run. -/
theorem hasGrammar_of_loadGrammar
    (hLoad : o.loadGrammar w = .ok handle) :
    o.HasGrammar w handle.grammar ∧
      handle.grammar.validate = .ok () := by
  cases hArtifact : o.artifact with
  | none =>
      rw [loadGrammar_of_none hArtifact] at hLoad
      cases hLoad
      exact ⟨.builtin hArtifact, validate_builtin⟩
  | some path =>
      unfold loadGrammar at hLoad
      simp only [hArtifact] at hLoad
      rcases loadArtifact_cases w path with
        ⟨handle', text, hSame, hText, hDecoded, hValid, -⟩ |
          ⟨e, hSame, -⟩
      · simp only [hSame] at hLoad
        cases hLoad
        exact
          ⟨.ofArtifact hArtifact hText hDecoded, hValid⟩
      · simp only [hSame] at hLoad
        cases hLoad

/- It has been checked, so it can be used. -/
theorem validate_of_loadGrammar
    (hLoad : o.loadGrammar w = .ok handle) :
    handle.grammar.validate = .ok () :=
  (hasGrammar_of_loadGrammar hLoad).2

end Options

end Loading

/- Any session takes a grammar that has been checked. -/
theorem Session.install_of_validate
    {handle : GrammarHandle}
    (hValid : handle.grammar.validate = .ok ())
    (s : Session) :
    s.install handle = .ok { s with grammar := some handle } := by
  rw [install, hValid]
  rfl

------------------------------------------------------------
-- One File After Another
------------------------------------------------------------

namespace Progress

section Steps

variable {o : Options}
variable {w : Surroundings}
variable {s : Session}
variable {about : String}
variable {paths : List String}
variable {p : Progress}

/-
  What holds of a run behind some files.  Its session is the
  one that it started with, so what was printed, reported
  and counted for each file depends on that file alone.
-/
structure Behind
    (o : Options)
    (w : Surroundings)
    (s : Session)
    (about : String)
    (paths : List String)
    (p : Progress) : Prop where
  session : p.session = s
  stdout :
    p.stdout =
      about ++
        String.join
          (paths.map fun path =>
            Rendering.shown (o.renderFile s w path))
  stderr :
    p.stderr =
      String.join
        (paths.map fun path =>
          Rendering.reported path (o.renderFile s w path))
  failed :
    p.failed =
      paths.countP fun path =>
        Rendering.Fails (o.renderFile s w path)

theorem behind_start
    (o : Options)
    (w : Surroundings)
    (s : Session)
    (about : String) :
    (start s about).Behind o w s about [] where
  session := rfl
  stdout := by simp [start]
  stderr := rfl
  failed := rfl

/- One more file adds what it gives by itself. -/
theorem Behind.step
    (hBehind : p.Behind o w s about paths)
    (path : String) :
    (p.next o w path).Behind o w s about
      (paths ++ [path]) := by
  unfold next
  rw [hBehind.session]
  cases hFile : o.renderFile s w path with
  | ok output =>
      refine ⟨rfl, ?_, ?_, ?_⟩
      · simp [hBehind.stdout, hFile, Rendering.shown,
          String.append_assoc]
      · simp [hBehind.stderr, hFile, Rendering.reported]
      · simp [hBehind.failed, hFile, Rendering.Fails,
          List.countP_append]
  | error e =>
      refine ⟨rfl, ?_, ?_, ?_⟩
      · simp [hBehind.stdout, hFile, Rendering.shown]
      · simp [hBehind.stderr, hFile, Rendering.reported,
          RunError.line]
      · simp [hBehind.failed, hFile, Rendering.Fails,
          List.countP_append]

/- So do any files, in turn. -/
theorem Behind.nextAll
    (hBehind : p.Behind o w s about paths)
    (more : List String) :
    (p.nextAll o w more).Behind o w s about
      (paths ++ more) := by
  induction more generalizing p paths with
  | nil =>
      rw [List.append_nil]
      exact hBehind
  | cons path more ih =>
      have hNext := ih (hBehind.step path)
      rw [List.append_assoc] at hNext
      exact hNext

end Steps

end Progress

------------------------------------------------------------
-- Whole Runs
------------------------------------------------------------

namespace Options

section Runs

variable {o : Options}
variable {w : Surroundings}
variable {handle : GrammarHandle}

/- The session of a run with a grammar. -/
def sessionOf
    (o : Options)
    (handle : GrammarHandle) : Session :=
  ⟨some handle, o.nestingLimit⟩

/-
  How a file is rendered in a run: it cannot be read, its
  bytes are no text, or its text is rendered in the format
  and under the limit that are asked for.
-/
inductive RendersFile
    (o : Options)
    (w : Surroundings)
    (path : String) : Rendering → Prop where
  | unreadable
      {e : ReadError}
      (hBytes : w.readFile path = .error e) :
      RendersFile o w path (.error (.unreadableFile e))
  | notUtf8
      {bytes : ByteArray}
      (hBytes : w.readFile path = .ok bytes)
      (hText : String.fromUTF8? bytes = none) :
      RendersFile o w path
        (.error (.unreadableFile .notUtf8))
  | text
      {bytes : ByteArray}
      {source : String}
      {rendering : Rendering}
      (hBytes : w.readFile path = .ok bytes)
      (hText : String.fromUTF8? bytes = some source)
      (hRenders :
        RendersTo source (o.limit.getD defaultLimit)
          (o.format.getD .sexp) rendering) :
      RendersFile o w path rendering

/- Every file is rendered in one of these ways. -/
theorem rendersFile_renderFile
    (o : Options)
    (w : Surroundings)
    (handle : GrammarHandle)
    (path : String) :
    o.RendersFile w path
      (o.renderFile (o.sessionOf handle) w path) := by
  unfold renderFile Surroundings.fileText
  cases hBytes : w.readFile path with
  | error e => exact .unreadable hBytes
  | ok bytes =>
      cases hText : String.fromUTF8? bytes with
      | none =>
          have hNoText : decodeText bytes = .error .notUtf8 := by
            rw [decodeText, hText]
          simp only [bind, Except.bind, hNoText]
          exact .notUtf8 hBytes hText
      | some source =>
          have hSource : decodeText bytes = .ok source := by
            rw [decodeText, hText]
          simp only [bind, Except.bind, hSource]
          have hGrammar :
              (o.sessionOf handle).grammar = some handle :=
            rfl
          exact
            .text hBytes hText
              (Session.rendersTo_render hGrammar
                o.outputFormat source)

/- The grammar is checked once more, and always taken. -/
theorem openSession_of_loadGrammar
    (hLoad : o.loadGrammar w = .ok handle) :
    o.openSession handle = .ok (o.sessionOf handle) :=
  Session.install_of_validate (validate_of_loadGrammar hLoad)
    _

/- Without a grammar a run ends before it prints. -/
theorem run_of_error
    {cause : String}
    (hLoad : o.loadGrammar w = .error cause) :
    (o.run w).code = 2 ∧ (o.run w).stdout = "" := by
  simp only [run, hLoad]
  exact ⟨rfl, rfl⟩

/- With files, a run prints what each of them gives. -/
theorem run_of_files
    (hLoad : o.loadGrammar w = .ok handle)
    (hFiles : o.files ≠ []) :
    let rendering := fun path =>
      o.renderFile (o.sessionOf handle) w path
    (o.run w).stdout =
      o.grammarText handle.grammar ++
        String.join
          (o.files.map fun path =>
            Rendering.shown (rendering path)) ∧
    (o.run w).stderr =
      String.join
        (o.files.map fun path =>
          Rendering.reported path (rendering path)) ∧
    (o.run w).code =
      if ∃ path ∈ o.files, Rendering.Fails (rendering path)
        then 1
        else 0 := by
  intro rendering
  have hBehind :=
    (Progress.behind_start o w (o.sessionOf handle)
      (o.grammarText handle.grammar)).nextAll o.files
  rw [List.nil_append] at hBehind
  have hRun :
      o.run w =
        ((Progress.start (o.sessionOf handle)
            (o.grammarText handle.grammar)).nextAll
          o w o.files).result := by
    simp only [run, hLoad, hFiles, false_and, if_false,
      openSession_of_loadGrammar hLoad, renderAll]
  rw [hRun]
  refine ⟨hBehind.stdout, hBehind.stderr, ?_⟩
  simp only [Progress.result, hBehind.failed,
    List.countP_pos_iff, decide_eq_true_eq]
  rfl

/- With one file, it prints just what the file gives. -/
theorem run_of_file
    {path : String}
    (hLoad : o.loadGrammar w = .ok handle)
    (hFile : o.files = [path]) :
    let rendering := o.renderFile (o.sessionOf handle) w path
    (o.run w).stdout =
      o.grammarText handle.grammar ++
        Rendering.shown rendering ∧
    (o.run w).stderr = Rendering.reported path rendering ∧
    (o.run w).code =
      if Rendering.Fails rendering then 1 else 0 := by
  intro rendering
  have hSome : o.files ≠ [] := by
    rw [hFile]
    exact List.cons_ne_nil _ _
  rcases run_of_files hLoad hSome with
    ⟨hShown, hReported, hCode⟩
  simp only [hFile, List.map_cons, List.map_nil,
    String.join_cons, String.join_nil, String.append_empty]
    at hShown hReported
  simp only [hFile, List.mem_singleton, exists_eq_left]
    at hCode
  exact ⟨hShown, hReported, hCode⟩

end Runs

end Options

namespace Request

/-
  Files are treated one by one.  For arguments that ask for
  a run, if there is a problem with the artifact, the exit
  code is 2 and nothing is printed.  Otherwise a grammar is
  loaded that every session takes.  What is asked about it
  is printed once: lines with its name, its version and the
  sizes of its tables, and its artifact, which it is loaded
  from again.  Behind that stands what each file gives, in
  order: its rendering and a line end, or a report that
  starts with its name, just as in a run on that file alone.
  The exit code is 1 if a file failed, or else 0.
-/
theorem files_treated_alone
    {arguments : List String}
    {o : Options}
    (hArguments : ofArguments arguments = .ok (.run o))
    (w : Surroundings) :
    let outcome := result (ofArguments arguments) w
    let alone := fun path =>
      result (.ok (.run { o with files := [path] })) w
    ((∃ path, o.artifact = some path ∧
        ArtifactProblem w path) →
      outcome.code = 2 ∧ outcome.stdout = "") ∧
    ((¬ ∃ path, o.artifact = some path ∧
        ArtifactProblem w path) →
      ∃ handle s,
        o.loadGrammar w = .ok handle ∧
        o.openSession handle = .ok s ∧
        (∀ t : Session, ∃ t', t.install handle = .ok t') ∧
        let g := handle.grammar
        let rendering := fun path => o.renderFile s w path
        o.HasGrammar w g ∧
        Grammar.ofArtifact g.toArtifact = .ok g ∧
        (∀ path, o.RendersFile w path (rendering path)) ∧
        let about :=
          (if o.languageInfo then
              "name: " ++ g.name ++ "\n" ++
                "version: " ++ toString g.version ++ "\n" ++
                "node kinds: " ++ toString g.kinds.length ++
                "\n" ++
                "fields: " ++ toString g.fields.length ++
                "\n"
            else "") ++
            (if o.dumpArtifact then g.toArtifact ++ "\n"
            else "")
        o.files ≠ [] →
          outcome.stdout =
            about ++
              String.join
                (o.files.map fun path =>
                  Rendering.shown (rendering path)) ∧
          (o.verbose = false →
            outcome.stderr =
              String.join
                (o.files.map fun path =>
                  Rendering.reported path
                    (rendering path))) ∧
          outcome.code =
            (if ∃ path ∈ o.files,
                Rendering.Fails (rendering path)
              then 1
              else 0) ∧
          ∀ path ∈ o.files,
            (alone path).stdout =
              about ++ Rendering.shown (rendering path) ∧
            (o.verbose = false →
              (alone path).stderr =
                Rendering.reported path
                  (rendering path)) ∧
            (alone path).code =
              if Rendering.Fails (rendering path) then 1
              else 0) := by
  intro outcome alone
  have hOutcome : outcome = o.run w := by
    simp only [outcome, hArguments, result]
  rw [← Options.exists_loadGrammar_error_iff]
  refine ⟨?_, fun hNone => ?_⟩
  · rintro ⟨cause, hLoad⟩
    rw [hOutcome]
    exact Options.run_of_error hLoad
  · cases hLoad : o.loadGrammar w with
    | error cause => exact absurd ⟨cause, hLoad⟩ hNone
    | ok handle =>
        rcases Options.hasGrammar_of_loadGrammar hLoad with
          ⟨hGrammar, hValid⟩
        refine
          ⟨handle, o.sessionOf handle, rfl,
            Options.openSession_of_loadGrammar hLoad,
            fun t => ⟨_, t.install_of_validate hValid⟩,
            hGrammar, Grammar.ofArtifact_of_validate hValid,
            o.rendersFile_renderFile w handle, ?_⟩
        intro about hFiles
        rcases Options.run_of_files hLoad hFiles with
          ⟨hShown, hReported, hCode⟩
        rw [hOutcome]
        refine ⟨hShown, fun _ => hReported, hCode, ?_⟩
        intro path _
        have hAlone :
            ({ o with files := [path] } :
                Options).loadGrammar w =
              .ok handle :=
          hLoad
        rcases Options.run_of_file hAlone rfl with
          ⟨hShown, hReported, hCode⟩
        exact ⟨hShown, fun _ => hReported, hCode⟩

/- Of two files, only the second one can be read. -/
def oneMissing : Surroundings where
  input := .ok ByteArray.empty
  readFile path :=
    if path = "b.fe" then .ok "struct S;".toUTF8
    else .error (.system 2)

theorem files_treated_alone_oneMissing :
    let arguments :=
      ["--language-info", "--dump-artifact", "a.fe", "b.fe"]
    let o : Options :=
      { Options.empty with
        files := ["a.fe", "b.fe"]
        languageInfo := true
        dumpArtifact := true }
    let outcome := result (ofArguments arguments) oneMissing
    let alone := fun path =>
      result (.ok (.run { o with files := [path] })) oneMissing
    ofArguments arguments = .ok (.run o) ∧
      outcome.code = 1 ∧
      outcome.stdout =
        "name: fe\nversion: 14\nnode kinds: 65\n" ++
          "fields: 6\n" ++
          (Grammar.builtin.toArtifact ++ "\n") ++
          "(source_file (struct_def name: (identifier)))\n" ∧
      outcome.stderr =
        (alone "a.fe").stderr ++ (alone "b.fe").stderr ∧
      (alone "a.fe").stderr =
        "a.fe: failed to read file: " ++
          "No such file or directory (os error 2)\n" := by
  intro arguments o outcome alone
  have hArguments : ofArguments arguments = .ok (.run o) :=
    rfl
  rcases (files_treated_alone hArguments oneMissing).2
      (by simp [o, Options.empty]) with
    ⟨handle, s, hLoad, hOpen, -, -, -, -, hRun⟩
  rcases hRun (List.cons_ne_nil _ _) with
    ⟨hShown, hReported, hCode, hAlone⟩
  have hBuiltin : o.loadGrammar oneMissing = .ok .builtin :=
    Options.loadGrammar_of_none rfl oneMissing
  have hOpens := Options.openSession_of_loadGrammar hBuiltin
  cases hBuiltin.symm.trans hLoad
  cases hOpens.symm.trans hOpen
  have hMissing :
      o.renderFile (o.sessionOf .builtin) oneMissing "a.fe" =
        .error (.unreadableFile (.system 2)) := by
    rfl
  have hStruct :
      o.renderFile (o.sessionOf .builtin) oneMissing "b.fe" =
        .ok "(source_file (struct_def name: (identifier)))" := by
    decide +kernel
  have hFails :
      Rendering.Fails
        (o.renderFile (o.sessionOf .builtin) oneMissing
          "a.fe") := by
    rw [hMissing]
    trivial
  have hInfo :
      "name: " ++ Grammar.builtin.name ++ "\n" ++
          "version: " ++ toString Grammar.builtin.version ++
          "\n" ++
          "node kinds: " ++
          toString Grammar.builtin.kinds.length ++ "\n" ++
          "fields: " ++
          toString Grammar.builtin.fields.length ++ "\n" =
        "name: fe\nversion: 14\nnode kinds: 65\n" ++
          "fields: 6\n" := by
    decide +kernel
  have hRendered :
      String.join
          (o.files.map fun path =>
            Rendering.shown
              (o.renderFile (o.sessionOf .builtin) oneMissing
                path)) =
        "(source_file (struct_def name: (identifier)))\n" := by
    simp only [o, List.map_cons, List.map_nil]
    rw [hMissing, hStruct]
    decide
  have hFirst :=
    (hAlone "a.fe" List.mem_cons_self).2.1 rfl
  have hSecond :=
    (hAlone "b.fe" (List.mem_cons_of_mem _ (.head _))).2.1 rfl
  refine ⟨hArguments, ?_, ?_, ?_, ?_⟩
  · exact hCode.trans (if_pos ⟨"a.fe", .head _, hFails⟩)
  · have hSame :
        GrammarHandle.builtin.grammar = Grammar.builtin :=
      rfl
    rw [hSame, hInfo, hRendered] at hShown
    exact hShown
  · rw [hFirst, hSecond]
    exact hReported rfl
  · exact hFirst.trans rfl

end Request

end FeSyntax
