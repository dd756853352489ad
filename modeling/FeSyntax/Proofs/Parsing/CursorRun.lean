import FeSyntax.Proofs.Parsing.AdvanceDefinition
import FeSyntax.Proofs.Parsing.Source

/-
  This file proves that a cursor stays consistent over any
  run of calls.  A call parses one piece, or fails; either
  way the cursor stands at a token of its text, no further
  back than before, and the next call has all levels of the
  limit again.

  Key definitions include:
    * `Piece`
    * `Parsed`
    * `Cursor.call`
    * `Cursor.callAll`
    * `Cursor.position`
    * `Cursor.allTokens`
    * `Cursor.Consistent`
    * `SyntaxError.Describes`
    * `Cursor.CallStep`

  Key theorems include:
    * `Cursor.allTokens_eq`
    * `Cursor.callStep_call`
    * `Cursor.Consistent.step`
    * `Cursor.Consistent.callAll`
    * `Cursor.callAll_consistent`
-/

namespace FeSyntax

------------------------------------------------------------
-- Calls
------------------------------------------------------------

/- What a cursor can be asked to parse. -/
inductive Piece where
  | sourceFile
  | definition
  | ty
  | expression
  | pattern
deriving DecidableEq, Repr

/- What a call gives when it does not fail. -/
inductive Parsed where
  | sourceFile (f : SourceFile)
  | definition (d : Definition)
  | ty (t : Ty)
  | expression (e : Expression)
  | pattern (p : Pattern)

/- How a call ends. -/
abbrev CallResult : Type :=
  Except SyntaxError Parsed

namespace Cursor

/- Parse one piece. -/
def call
    (c : Cursor) : Piece → CallResult × Cursor
  | .sourceFile => c.sourceFile.map (.map .sourceFile) id
  | .definition => c.definition.map (.map .definition) id
  | .ty => c.ty.map (.map .ty) id
  | .expression => c.expression.map (.map .expression) id
  | .pattern => c.pattern.map (.map .pattern) id

/- Parse one piece after another, failures included. -/
def callAll
    (c : Cursor) : List Piece → List CallResult × Cursor
  | [] => ([], c)
  | piece :: pieces =>
      let (result, next) := c.call piece
      let (results, last) := next.callAll pieces
      (result :: results, last)

/- The index, among all tokens, of the one it stands at. -/
def position
    (c : Cursor) : Nat :=
  c.tokenCount - (c.rest.length + 1)

/- The tokens that a cursor on a text can stand at. -/
def allTokens
    (source : String) : List Token :=
  (tokenize source).filter (fun t => t.kind ≠ .comment)

/- The end of the text is behind all of them. -/
theorem allTokens_eq
    (source : String) :
    allTokens source =
      significantTokens source ++
        [stopOf (tokenize source)] := by
  rcases exists_tokenize_eq source with
    ⟨tokens, p, hTokens, -, hMore⟩
  have hStop :
      stopOf (tokenize source) = Scanner.endToken p := by
    rw [stopOf, hTokens, List.getLastD_concat]
  have hSame :
      tokens.filter (fun t => t.kind ≠ .comment) =
        tokens.filter (fun t => t.IsSignificant) := by
    refine List.filter_congr fun t hMem => ?_
    simp [Token.IsSignificant, (hMore t hMem).1]
  have hEnd :
      [Scanner.endToken p].filter
          (fun t => t.IsSignificant) =
        [] :=
    rfl
  rw [hStop, allTokens, significantTokens, hTokens,
    List.filter_append, List.filter_append, hSame, hEnd,
    List.append_nil]
  rfl

theorem length_allTokens
    (source : String) :
    (allTokens source).length =
      (significantTokens source).length + 1 := by
  rw [allTokens_eq, List.length_append,
    List.length_singleton]

/- Only the last of them stands for the end. -/
theorem index_of_endOfText
    {source : String}
    {index : Nat}
    {t : Token}
    (hToken : (allTokens source)[index]? = some t)
    (hEnd : t.kind = .endOfText) :
    index = (significantTokens source).length := by
  rw [allTokens_eq] at hToken
  rcases Nat.lt_trichotomy index
      (significantTokens source).length with
    hLess | hSame | hMore
  · rw [List.getElem?_append_left hLess] at hToken
    have hMem :=
      List.mem_filter.mp (List.mem_of_getElem? hToken)
    exact absurd hEnd (of_decide_eq_true hMem.2).2
  · exact hSame
  · rw [List.getElem?_append_right hMore.le,
      List.getElem?_singleton,
      if_neg (Nat.sub_ne_zero_of_lt hMore)] at hToken
    cases hToken

end Cursor

------------------------------------------------------------
-- Consistency
------------------------------------------------------------

/-
  The error is what is said about a failure at the token.
  The end of the text and an error among the tokens have
  their own forms.
-/
def SyntaxError.Describes
    (limit : Nat)
    (t : Token) : SyntaxError → Prop
  | nestingTooDeep n line column =>
      n = limit ∧ line = t.span.line ∧
        column = t.span.column
  | unexpectedEnd _ => t.kind = .endOfText
  | invalidToken cause line column =>
      t.kind = .error cause ∧ line = t.span.line ∧
        column = t.span.column
  | unexpectedToken _ got line column =>
      t.kind = got ∧ got ≠ .endOfText ∧
        (∀ cause, got ≠ .error cause) ∧
        line = t.span.line ∧ column = t.span.column

theorem SyntaxError.describes_ofFault
    (limit : Nat)
    (fault : Fault)
    (t : Token) :
    (ofFault limit fault t).Describes limit t := by
  cases fault with
  | tooDeep => exact ⟨rfl, rfl, rfl⟩
  | expected what =>
      rw [ofFault]
      cases hKind : t.kind <;> simp [Describes, hKind]

/- The call gave a whole file. -/
def CallResult.givesFile : CallResult → Bool
  | .ok (.sourceFile _) => true
  | _ => false

namespace Cursor

/-
  What holds of a cursor on a text behind calls with these
  results.  It keeps its limit and all its tokens, stands at
  one of them, and has its comments as long as no call has
  given a whole file.
-/
structure Consistent
    (source : String)
    (limit : Nat)
    (results : List CallResult)
    (c : Cursor) : Prop where
  limit : c.limit = limit
  stop : c.stop = stopOf (tokenize source)
  tokenCount : c.tokenCount = (allTokens source).length
  rest : c.rest <:+ significantTokens source
  comments :
    c.comments =
      if results.any CallResult.givesFile then []
      else commentsOf (tokenize source)

/-
  All that one call can do.  It fails at some token, it
  takes the comments with a whole file, or it passes at
  least one token with a piece of another form.
-/
inductive CallStep
    (c : Cursor) :
    Piece → CallResult → Cursor → Prop where
  | failed
      {piece : Piece}
      {e : SyntaxError}
      {rest : List Token}
      (hRest : rest <:+ c.rest)
      (hError : e.Describes c.limit (c.moveTo rest).current) :
      CallStep c piece (.error e) (c.moveTo rest)
  | file
      {f : SourceFile}
      (hComments : f.comments = c.comments) :
      CallStep c .sourceFile (.ok (.sourceFile f))
        { c.moveTo [] with comments := [] }
  | part
      {piece : Piece}
      {v : Parsed}
      {rest : List Token}
      (hRest : rest <:+ c.rest)
      (hLess : rest.length < c.rest.length)
      (hPart : CallResult.givesFile (.ok v) = false) :
      CallStep c piece (.ok v) (c.moveTo rest)

------------------------------------------------------------
-- One Call
------------------------------------------------------------

section Steps

variable {c : Cursor}

/- A parser that stops leaves the cursor at its fault. -/
theorem CallStep.of_stopped
    {α : Type}
    {p : Nat → Parser α}
    {least levels : Nat}
    {fault : Fault}
    {rest : List Token}
    (piece : Piece)
    (hPasses : (p c.limit).Passes least levels)
    (hRun : p c.limit c.rest = .stopped fault rest) :
    CallStep c piece
      (.error
        (.ofFault c.limit fault (c.moveTo rest).current))
      (c.moveTo rest) := by
  rcases hPasses.stopped hRun with ⟨_, ⟨used, hUsed, -⟩, -⟩
  exact .failed ⟨used, hUsed.symm⟩
    (SyntaxError.describes_ofFault _ _ _)

/- A piece that is no file moves the cursor behind it. -/
theorem callStep_run
    {α : Type}
    {p : Nat → Parser α}
    {levels : Nat}
    {wrap : α → Parsed}
    (piece : Piece)
    (hPasses : (p c.limit).Passes 1 levels)
    (hPart :
      ∀ a, CallResult.givesFile (.ok (wrap a)) = false) :
    CallStep c piece
      ((c.run p).map (Except.map wrap) id).1
      ((c.run p).map (Except.map wrap) id).2 := by
  rw [run]
  cases hRun : p c.limit c.rest with
  | done a rest =>
      have hAdvances := hPasses.done hRun
      have hLess := hAdvances.length_le
      rcases hAdvances with ⟨used, hUsed, -⟩
      exact .part ⟨used, hUsed.symm⟩ (by omega) (hPart a)
  | stopped fault rest =>
      exact .of_stopped piece hPasses hRun

theorem callStep_sourceFile
    (c : Cursor) :
    CallStep c .sourceFile (c.call .sourceFile).1
      (c.call .sourceFile).2 := by
  rw [call, sourceFile, run]
  have hPasses := Parser.definitions_passes c.limit
  cases hRun : Parser.definitions c.limit c.rest with
  | done ds rest =>
      rw [Parser.rest_of_definitions hRun]
      exact .file rfl
  | stopped fault rest =>
      exact .of_stopped .sourceFile hPasses hRun

theorem callStep_call
    (c : Cursor)
    (piece : Piece) :
    CallStep c piece (c.call piece).1 (c.call piece).2 := by
  cases piece with
  | sourceFile => exact callStep_sourceFile c
  | definition =>
      exact callStep_run _ (Parser.definition_passes _)
        fun _ => rfl
  | ty =>
      exact callStep_run _ (Parser.ty_passes _) fun _ => rfl
  | expression =>
      exact callStep_run _ (Parser.expression_passes _)
        fun _ => rfl
  | pattern =>
      exact callStep_run _ (Parser.pattern_passes _)
        fun _ => rfl

end Steps

------------------------------------------------------------
-- Runs Of Calls
------------------------------------------------------------

section Runs

variable {source : String}
variable {limit : Nat}
variable {results : List CallResult}
variable {c next : Cursor}
variable {piece : Piece}
variable {result : CallResult}

theorem consistent_ofString
    (source : String)
    (limit : Nat) :
    (ofString source limit).Consistent source limit [] where
  limit := rfl
  stop := rfl
  tokenCount := (length_allTokens source).symm
  rest := List.suffix_refl _
  comments := rfl

/- A call keeps a cursor consistent. -/
theorem Consistent.step
    (hCursor : c.Consistent source limit results)
    (hStep : CallStep c piece result next) :
    next.Consistent source limit (results ++ [result]) := by
  -- Only a whole file is asked for in `comments`.
  have hSame :
      result.givesFile = false →
        (results ++ [result]).any CallResult.givesFile =
          results.any CallResult.givesFile := by
    intro hPart
    rw [List.any_append, List.any_cons, hPart]
    simp
  cases hStep with
  | failed hRest hError =>
      exact
        { hCursor with
          rest := hRest.trans hCursor.rest
          comments := by
            rw [hSame rfl]
            exact hCursor.comments }
  | file hComments =>
      exact
        { hCursor with
          rest := List.nil_suffix
          comments := by
            rw [List.any_append, List.any_cons]
            simp [CallResult.givesFile] }
  | part hRest hLess hPart =>
      exact
        { hCursor with
          rest := hRest.trans hCursor.rest
          comments := by
            rw [hSame hPart]
            exact hCursor.comments }

/- So does any run of calls. -/
theorem Consistent.callAll
    (hCursor : c.Consistent source limit results)
    (pieces : List Piece) :
    (c.callAll pieces).2.Consistent source limit
      (results ++ (c.callAll pieces).1) := by
  induction pieces generalizing c results with
  | nil =>
      rw [Cursor.callAll, List.append_nil]
      exact hCursor
  | cons piece pieces ih =>
      have hNext := ih (hCursor.step (callStep_call c piece))
      rw [List.append_assoc] at hNext
      exact hNext

/- The position splits all tokens at the current one. -/
theorem Consistent.drop_position
    (hCursor : c.Consistent source limit results) :
    (allTokens source).drop c.position =
      c.rest ++ [c.stop] := by
  rcases hCursor.rest with ⟨used, hUsed⟩
  have hPosition : c.position = used.length := by
    rw [position, hCursor.tokenCount, length_allTokens,
      ← hUsed, List.length_append]
    omega
  rw [hPosition, allTokens_eq, ← hUsed, hCursor.stop,
    List.append_assoc, List.drop_left]

theorem Consistent.getElem?_position
    (hCursor : c.Consistent source limit results) :
    (allTokens source)[c.position]? = some c.current := by
  rw [← List.head?_drop, hCursor.drop_position, current]
  cases c.rest <;> rfl

/- The position is not behind the end of the text. -/
theorem Consistent.position_le
    {index : Nat}
    {t : Token}
    (hCursor : c.Consistent source limit results)
    (hToken : (allTokens source)[index]? = some t)
    (hEnd : t.kind = .endOfText) :
    c.position ≤ index := by
  rw [index_of_endOfText hToken hEnd, position,
    hCursor.tokenCount, length_allTokens]
  omega

/- Only the position and the comments change. -/
theorem Consistent.eq_ofString
    (hCursor : c.Consistent source limit results) :
    c =
      { ofString source limit with
        rest := c.rest
        comments := c.comments } := by
  have hCount := hCursor.tokenCount
  rw [length_allTokens] at hCount
  rcases c with ⟨rest, comments, stop, limit', tokenCount⟩
  obtain rfl : limit' = limit := hCursor.limit
  obtain rfl : stop = _ := hCursor.stop
  obtain rfl : tokenCount = _ := hCount
  rfl

/- A failure is told of where the cursor is left. -/
theorem CallStep.describes
    {e : SyntaxError}
    (hStep : CallStep c piece (.error e) next) :
    e.Describes c.limit next.current := by
  cases hStep with
  | failed hRest hError => exact hError

/- A file has the comments that the cursor still had. -/
theorem CallStep.comments_eq
    {f : SourceFile}
    (hStep : CallStep c piece (.ok (.sourceFile f)) next) :
    f.comments = c.comments := by
  cases hStep with
  | file hComments => exact hComments
  | part hRest hLess hPart => cases hPart

/- A call moves forward. -/
theorem CallStep.position_le
    (hStep : CallStep c piece result next) :
    c.position ≤ next.position := by
  have hLength : next.rest.length ≤ c.rest.length := by
    cases hStep with
    | failed hRest hError => exact hRest.length_le
    | file hComments => exact Nat.zero_le _
    | part hRest hLess hPart => exact hRest.length_le
  have hCount : next.tokenCount = c.tokenCount := by
    cases hStep <;> rfl
  rw [position, position, hCount]
  omega

/- Every piece but a file at the end is behind a token. -/
theorem Consistent.position_lt
    {v : Parsed}
    (hCursor : c.Consistent source limit results)
    (hStep : CallStep c piece (.ok v) next) :
    (piece = .sourceFile ∧ c.current.kind = .endOfText) ∨
      c.position < next.position := by
  have hCount : c.rest.length + 1 ≤ c.tokenCount := by
    rw [hCursor.tokenCount, length_allTokens]
    exact Nat.succ_le_succ hCursor.rest.length_le
  cases hStep with
  | file hComments =>
      cases hRest : c.rest with
      | nil =>
          refine .inl ⟨rfl, ?_⟩
          rw [current, hRest, hCursor.stop]
          exact kind_stopOf source
      | cons t ts =>
          refine .inr ?_
          rw [hRest, List.length_cons] at hCount
          simp only [position, moveTo, hRest, List.length_cons,
            List.length_nil]
          omega
  | part hRest hLess hPart =>
      refine .inr ?_
      simp only [position, moveTo]
      omega

end Runs

------------------------------------------------------------
-- Main Result
------------------------------------------------------------

/-
  Behind any calls, failures included, one more call leaves
  a fresh cursor, with all levels of the limit, but for its
  position and its comments.  It stands at a token of the
  text, no further than the end and no further back than
  before.  Only a file that is asked for at the end is
  parsed without passing a token.  A failure is told of the
  token that the cursor stands at.  The comments of the text
  come with the first file, all of them in order and each as
  it is written, and with no other piece.
-/
theorem callAll_consistent
    (source : String)
    (limit : Nat)
    (earlier : List Piece)
    (piece : Piece) :
    let before := (ofString source limit).callAll earlier
    let after := before.2.call piece
    after.2 =
      { ofString source limit with
        rest := after.2.rest
        comments := after.2.comments } ∧
    (allTokens source).drop after.2.position =
      after.2.rest ++ [after.2.stop] ∧
    (allTokens source)[after.2.position]? =
      some after.2.current ∧
    (∀ index t,
      (allTokens source)[index]? = some t →
      t.kind = .endOfText →
      after.2.position ≤ index) ∧
    before.2.position ≤ after.2.position ∧
    (∀ v, after.1 = .ok v →
      (piece = .sourceFile ∧
        before.2.current.kind = .endOfText) ∨
      before.2.position < after.2.position) ∧
    (∀ e, after.1 = .error e →
      e.Describes limit after.2.current) ∧
    ∀ f, after.1 = .ok (.sourceFile f) →
      f.comments =
        if before.1.any CallResult.givesFile then []
        else
          ((tokenize source).filter
              (fun t => t.kind = .comment)).map
            (fun t => ⟨t.text, t.span⟩) := by
  intro before after
  have hBefore :
      before.2.Consistent source limit before.1 :=
    (consistent_ofString source limit).callAll earlier
  have hStep : CallStep before.2 piece after.1 after.2 :=
    callStep_call before.2 piece
  have hAfter := hBefore.step hStep
  refine
    ⟨hAfter.eq_ofString, hAfter.drop_position,
      hAfter.getElem?_position,
      fun _ _ hToken hEnd => hAfter.position_le hToken hEnd,
      hStep.position_le, ?_, ?_, ?_⟩
  · intro v hOk
    rw [hOk] at hStep
    exact hBefore.position_lt hStep
  · intro e hError
    rw [hError] at hStep
    have hDescribes := hStep.describes
    rw [hBefore.limit] at hDescribes
    exact hDescribes
  · intro f hFile
    rw [hFile] at hStep
    rw [hStep.comments_eq]
    exact hBefore.comments

end Cursor

end FeSyntax
