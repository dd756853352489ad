import FeSyntax.Proofs.Parsing.CorrespondDefinition
import FeSyntax.Proofs.Parsing.Failure
import FeSyntax.Proofs.Syntax.NamedShape

/-
  This file proves that layout, comments and payloads never
  influence how a source text is parsed.  Two texts of which
  one has the significant token kinds of the other, renamed,
  parse alike: to the same tree, renamed, or to the same
  error at the same significant token.

  Key definitions include:
    * `SyntaxError.rename`
    * `SyntaxError.forgetPlace`

  Key theorems include:
    * `SourceFile.exists_parse_of_renamed`
    * `SourceFile.exists_failsAt_of_renamed`
    * `SourceFile.parse_renamed`
    * `SourceFile.parse_of_significantKinds_eq`
-/

namespace FeSyntax

------------------------------------------------------------
-- Errors Without Places
------------------------------------------------------------

namespace SyntaxError

/- The error with the token that it shows renamed. -/
def rename
    (r : Renaming) : SyntaxError → SyntaxError
  | unexpectedToken expected got line column =>
      unexpectedToken expected (r.kind got) line column
  | e => e

/- The error, at no place. -/
def forgetPlace : SyntaxError → SyntaxError
  | unexpectedToken expected got _ _ =>
      unexpectedToken expected got 0 0
  | unexpectedEnd expected => unexpectedEnd expected
  | invalidToken cause _ _ => invalidToken cause 0 0
  | nestingTooDeep limit _ _ => nestingTooDeep limit 0 0

/- One fault at a token and at the token renamed. -/
theorem forgetPlace_ofFault
    {r : Renaming}
    {t u : Token}
    (limit : Nat)
    (fault : Fault)
    (hKind : u.kind = r.kind t.kind) :
    (ofFault limit fault u).forgetPlace =
      ((ofFault limit fault t).rename r).forgetPlace := by
  cases fault with
  | tooDeep => rfl
  | expected what =>
      rw [ofFault, ofFault, hKind]
      cases t.kind <;> rfl

@[simp] theorem rename_identity
    (e : SyntaxError) :
    e.rename .identity = e := by
  cases e <;> simp [rename]

end SyntaxError

------------------------------------------------------------
-- Texts That Differ In Payloads
------------------------------------------------------------

namespace SourceFile

variable {r : Renaming}
variable {a b : String}
variable {limit : Nat}

section Renamed

variable
  (hKinds :
    significantKinds b = (significantKinds a).map r.kind)

include hKinds

/- All tokens of the texts are aligned, with their ends. -/
theorem aligned_significantTokens :
    Aligned r ((significantTokens a).length + 1)
      (significantTokens a) (significantTokens b) := by
  have hLength :
      (significantTokens b).length =
        (significantTokens a).length := by
    simpa [significantKinds] using
      congrArg List.length hKinds
  refine ⟨lexed_significantTokens a, ?_⟩
  rw [List.take_of_length_le (by omega),
    List.take_of_length_le (by omega)]
  simpa [significantKinds, Function.comp_def] using hKinds

/- Tokens of one index are the same up to payloads. -/
theorem kind_stopAt
    (index : Nat) :
    (stopAt b index).kind =
      r.kind (stopAt a index).kind := by
  have hDrop := congrArg (List.drop index) hKinds
  rw [← List.map_drop, significantKinds, significantKinds,
    ← List.map_drop, ← List.map_drop] at hDrop
  unfold stopAt
  cases hLeft : (significantTokens a).drop index with
  | nil =>
      rw [hLeft] at hDrop
      have hRight := List.map_eq_nil_iff.mp hDrop
      rw [hRight, List.headD_nil, List.headD_nil,
        Cursor.kind_stopOf, Cursor.kind_stopOf]
      rfl
  | cons t rest =>
      cases hRight : (significantTokens b).drop index with
      | nil =>
          rw [hLeft, hRight] at hDrop
          cases hDrop
      | cons u rest' =>
          rw [hLeft, hRight] at hDrop
          exact List.head_eq_of_cons_eq hDrop

/- A text that parses does so when it is renamed. -/
theorem exists_parse_of_renamed
    {f : SourceFile}
    (hParse : SourceFile.parse a limit = .ok f) :
    ∃ g, SourceFile.parse b limit = .ok g ∧
      g.shape = (f.rename r).shape ∧ g.sexp = f.sexp := by
  rcases parse_eq_ok_iff.mp hParse with ⟨rest, hRun, -⟩
  rcases Parser.definitions_corresponds limit _ _ _
      (aligned_significantTokens hKinds) with
    ⟨used, hTokens, hAgree⟩
  have hUsed := congrArg List.length hTokens
  rw [List.length_append] at hUsed
  have hSame := hAgree (by omega)
  rw [hRun] at hSame
  cases hRun' :
      Parser.definitions limit (significantTokens b) with
  | stopped fault rest' =>
      rw [hRun'] at hSame
      cases hSame
  | done ds rest' =>
      rw [hRun'] at hSame
      cases hSame with
      | done hAlike hRest =>
          have hDefinitions :
              ds.map (Definition.mapSpans .forget) =
                (f.definitions.map
                  (Definition.rename r)).map
                    (Definition.mapSpans .forget) :=
            hAlike
          let g : SourceFile :=
            { definitions := ds
              comments := Cursor.commentsOf (tokenize b)
              span :=
                ⟨0,
                  (Cursor.stopOf (tokenize b)).span.stop,
                  1, 1⟩ }
          have hShape : g.shape = (f.rename r).shape := by
            rw [shape, shape, hDefinitions]
            rfl
          refine ⟨g, ?_, hShape, sexp_of_shape_eq r hShape⟩
          exact
            parse_eq_ok_iff.mpr ⟨rest', hRun', rfl, rfl⟩

/- A text that fails does so when it is renamed. -/
theorem exists_failsAt_of_renamed
    {e : SyntaxError}
    (hParse : SourceFile.parse a limit = .error e) :
    ∃ index e', FailsAt a limit index e ∧
      FailsAt b limit index e' ∧
      e'.forgetPlace = (e.rename r).forgetPlace := by
  rcases exists_failsAt hParse with ⟨index, hFails⟩
  rcases failsAt_iff.mp hFails with
    ⟨hIndex, fault, hRun, rfl⟩
  have hAligned := aligned_significantTokens hKinds
  have hLength := hAligned.length_eq (Nat.lt_succ_self _)
  rcases Parser.definitions_corresponds limit _ _ _ hAligned
    with ⟨used, hTokens, hAgree⟩
  have hUsed := congrArg List.length hTokens
  rw [List.length_append] at hUsed
  have hSame := hAgree (by omega)
  rw [hRun] at hSame hUsed
  rw [Outcome.rest, List.length_drop] at hUsed
  cases hRun' :
      Parser.definitions limit (significantTokens b) with
  | done ds rest' =>
      rw [hRun'] at hSame
      cases hSame
  | stopped fault' rest' =>
      rw [hRun'] at hSame
      cases hSame with
      | stopped hRest =>
          have hLeft := hRest.length_eq
            (by rw [List.length_drop]; omega)
          have hError :
              SourceFile.parse b limit = .error _ :=
            congrArg Prod.fst (sourceFile_of_stopped hRun')
          rcases exists_failsAt hError with
            ⟨index', hFails'⟩
          rcases failsAt_iff.mp hFails' with
            ⟨hIndex', fault', hStopped, hShown⟩
          rw [hRun'] at hStopped
          cases hStopped
          -- The texts have the same number of tokens left.
          have hIndices : index' = index := by
            rw [List.length_drop, List.length_drop] at hLeft
            omega
          subst hIndices
          refine ⟨index', _, hFails, hFails', ?_⟩
          rw [hShown]
          exact SyntaxError.forgetPlace_ofFault limit fault
            (kind_stopAt hKinds index')

end Renamed

/-
  A renaming of payloads changes nothing but payloads.  If
  the significant token kinds of one text are those of the
  other, renamed, the one parses whenever the other does.
  The trees are then the same up to places, with the names
  and literals of the one renamed, and have one S-expression.
  Otherwise both fail at the same significant token with the
  same error, up to its place and to the token it shows.
-/
theorem parse_renamed
    (hKinds :
      significantKinds b = (significantKinds a).map r.kind)
    (limit : Nat) :
    ((∃ g, SourceFile.parse b limit = .ok g) ↔
      ∃ f, SourceFile.parse a limit = .ok f) ∧
    (∀ f, SourceFile.parse a limit = .ok f →
      ∃ g, SourceFile.parse b limit = .ok g ∧
        g.shape = (f.rename r).shape ∧ g.sexp = f.sexp) ∧
    ∀ e, SourceFile.parse a limit = .error e →
      ∃ index e', FailsAt a limit index e ∧
        FailsAt b limit index e' ∧
        e'.forgetPlace = (e.rename r).forgetPlace := by
  refine
    ⟨⟨?_, ?_⟩, fun f => exists_parse_of_renamed hKinds,
      fun e => exists_failsAt_of_renamed hKinds⟩
  · intro hRenamed
    rcases hRenamed with ⟨g, hParse⟩
    cases hRun : SourceFile.parse a limit with
    | ok f => exact ⟨f, rfl⟩
    | error e =>
        rcases exists_failsAt_of_renamed hKinds hRun with
          ⟨index, e', -, hFails, -⟩
        rw [hFails.parse_eq] at hParse
        cases hParse
  · intro hParses
    rcases hParses with ⟨f, hParse⟩
    rcases exists_parse_of_renamed hKinds hParse with
      ⟨g, hRun, -⟩
    exact ⟨g, hRun⟩

/- A renaming of one name; all numbers become one. -/
def underscored : Renaming :=
  { name := fun n => if n = "x" then "_x" else "_other"
    number := fun _ => (some 1, none)
    string := fun _ => "text" }

/- Two constants, the second of which takes its own name. -/
def constants : String :=
  "const x: u8 = 0x10u8; // ten\nconst for: y = x::for;"

/- The same with other payloads, and with another layout. -/
def otherConstants : String :=
  "const _x : u8=1;const for:/**/_other\n= _x :: for ;"

theorem parse_renamed_constants :
    ∃ f g,
      SourceFile.parse constants 8 = .ok f ∧
      SourceFile.parse otherConstants 8 = .ok g ∧
      g.shape = (f.rename underscored).shape ∧
      g.sexp = f.sexp := by
  have hKinds :
      significantKinds otherConstants =
        (significantKinds constants).map
          underscored.kind := by
    decide +kernel
  have hOk :
      (SourceFile.parse constants 8).isOk = true := by
    decide +kernel
  cases hParse : SourceFile.parse constants 8 with
  | error e =>
      rw [hParse] at hOk
      cases hOk
  | ok f =>
      rcases (parse_renamed hKinds 8).2.1 f hParse with
        ⟨g, hRun, hShape, hSexp⟩
      exact ⟨f, g, rfl, hRun, hShape, hSexp⟩

/-
  Whitespace and comments are extras: texts with the same
  significant token kinds parse to the same tree up to
  places, or fail at the same token with the same error.
-/
theorem parse_of_significantKinds_eq
    (hKinds : significantKinds b = significantKinds a)
    (limit : Nat) :
    (∀ f, SourceFile.parse a limit = .ok f →
      ∃ g, SourceFile.parse b limit = .ok g ∧
        g.shape = f.shape) ∧
    ∀ e, SourceFile.parse a limit = .error e →
      ∃ index e', FailsAt a limit index e ∧
        FailsAt b limit index e' ∧
        e'.forgetPlace = e.forgetPlace := by
  have hSame :
      significantKinds b =
        (significantKinds a).map Renaming.identity.kind := by
    rw [hKinds, Renaming.kind_identity, List.map_id]
  constructor
  · intro f hParse
    rcases exists_parse_of_renamed hSame hParse with
      ⟨g, hRun, hShape, -⟩
    rw [rename_identity] at hShape
    exact ⟨g, hRun, hShape⟩
  · intro e hParse
    rcases exists_failsAt_of_renamed hSame hParse with
      ⟨index, e', hFails, hFails', hError⟩
    rw [SyntaxError.rename_identity] at hError
    exact ⟨index, e', hFails, hFails', hError⟩

end SourceFile

end FeSyntax
