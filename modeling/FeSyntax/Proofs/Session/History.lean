import FeSyntax.Session

/-
  This file proves that a session is determined by its
  history.  Behind any calls it holds the grammar that was
  accepted last and the limit that was set last, and what it
  says about a text depends on nothing else.  Which usable
  grammar it holds changes no tree and no error.

  Key definitions include:
    * `SessionCall`
    * `SessionAnswer`
    * `Session.call`
    * `Session.callAll`
    * `SessionCall.accepted?`
    * `SessionCall.limit?`
    * `Session.CallStep`
    * `Session.Follows`

  Key theorems include:
    * `Session.callStep_call`
    * `Session.Follows.step`
    * `Session.Follows.callAll`
    * `Session.parse_eq_of_limit_eq`
    * `Session.callAll_follows_history`
-/

namespace FeSyntax

------------------------------------------------------------
-- Calls
------------------------------------------------------------

/- What a session can be asked to do. -/
inductive SessionCall where
  | install (handle : GrammarHandle)
  | withLimit (limit : Nat)
  | parse (source : String)

/- What a session answers to a call. -/
inductive SessionAnswer where
  | installed
  | rejected (cause : GrammarError)
  | limited
  | parsed (result : Except SessionError ParsedFile)

namespace Session

/-
  Make one call.  A grammar that is rejected leaves the
  session as it was.
-/
def call
    (s : Session) : SessionCall → SessionAnswer × Session
  | .install handle =>
      match s.install handle with
      | .ok next => (.installed, next)
      | .error cause => (.rejected cause, s)
  | .withLimit limit => (.limited, s.withLimit limit)
  | .parse source => (.parsed (s.parse source), s)

/- Make one call after another. -/
def callAll
    (s : Session) :
    List SessionCall → List SessionAnswer × Session
  | [] => ([], s)
  | c :: calls =>
      let (answer, next) := s.call c
      let (answers, last) := next.callAll calls
      (answer :: answers, last)

theorem callAll_cons
    (s : Session)
    (c : SessionCall)
    (calls : List SessionCall) :
    s.callAll (c :: calls) =
      ( (s.call c).1 :: ((s.call c).2.callAll calls).1,
        ((s.call c).2.callAll calls).2 ) :=
  rfl

/- Calls behind others go on from where those end. -/
theorem callAll_append
    (s : Session)
    (earlier later : List SessionCall) :
    s.callAll (earlier ++ later) =
      ( (s.callAll earlier).1 ++
          ((s.callAll earlier).2.callAll later).1,
        ((s.callAll earlier).2.callAll later).2 ) := by
  induction earlier generalizing s with
  | nil => rfl
  | cons c earlier ih =>
      rw [List.cons_append, callAll_cons, callAll_cons, ih]
      rfl

end Session

------------------------------------------------------------
-- Histories
------------------------------------------------------------

namespace SessionCall

/- The grammar that a call installs, if it can be used. -/
def accepted? : SessionCall → Option GrammarHandle
  | install handle =>
      match handle.grammar.validate with
      | .ok _ => some handle
      | .error _ => none
  | _ => none

/- The limit that a call sets. -/
def limit? : SessionCall → Option Nat
  | withLimit limit => some limit
  | _ => none

/- The grammar that was accepted last. -/
def lastAccepted?
    (history : List SessionCall) : Option GrammarHandle :=
  (history.filterMap accepted?).getLast?

/- The limit that was set last, or else the default. -/
def lastLimit
    (history : List SessionCall) : Nat :=
  (history.filterMap limit?).getLastD defaultLimit

end SessionCall

namespace Session

/-
  All that one call can do.  Only a usable grammar and a new
  limit change the session.
-/
inductive CallStep
    (s : Session) :
    SessionCall → SessionAnswer → Session → Prop where
  | installed
      {handle : GrammarHandle}
      (hUsable : handle.grammar.validate = .ok ()) :
      CallStep s (.install handle) .installed
        { s with grammar := some handle }
  | rejected
      {handle : GrammarHandle}
      {cause : GrammarError}
      (hProblem : handle.grammar.validate = .error cause) :
      CallStep s (.install handle) (.rejected cause) s
  | limited
      {limit : Nat} :
      CallStep s (.withLimit limit) .limited
        { s with limit }
  | parsed
      {source : String} :
      CallStep s (.parse source)
        (.parsed (s.parse source)) s

/-
  What holds of a session behind calls with these answers.
  It is what its history says, and a grammar that it holds
  can be used.
-/
structure Follows
    (history : List SessionCall)
    (answers : List SessionAnswer)
    (s : Session) : Prop where
  grammar : s.grammar = SessionCall.lastAccepted? history
  limit : s.limit = SessionCall.lastLimit history
  usable :
    ∀ handle, s.grammar = some handle →
      handle.grammar.validate = .ok ()
  answered : s.grammar = none ↔ .installed ∉ answers

------------------------------------------------------------
-- One Call
------------------------------------------------------------

theorem callStep_call
    (s : Session)
    (c : SessionCall) :
    CallStep s c (s.call c).1 (s.call c).2 := by
  cases c with
  | install handle =>
      rw [call, install]
      cases hCheck : handle.grammar.validate with
      | ok _ => exact .installed hCheck
      | error cause => exact .rejected hCheck
  | withLimit limit => exact .limited
  | parse source => exact .parsed

section Steps

variable {s next : Session}
variable {history : List SessionCall}
variable {answers : List SessionAnswer}
variable {c : SessionCall}
variable {answer : SessionAnswer}

/-
  The last grammar that was taken is that of the last call,
  if it took one.
-/
theorem lastAccepted?_concat
    (history : List SessionCall)
    (c : SessionCall) :
    SessionCall.lastAccepted? (history ++ [c]) =
      c.accepted?.or (SessionCall.lastAccepted? history) := by
  rw [SessionCall.lastAccepted?, List.filterMap_append,
    List.getLast?_append]
  cases hCall : c.accepted? <;>
    simp [hCall, SessionCall.lastAccepted?]

theorem lastLimit_concat
    (history : List SessionCall)
    (c : SessionCall) :
    SessionCall.lastLimit (history ++ [c]) =
      c.limit?.getD (SessionCall.lastLimit history) := by
  rw [SessionCall.lastLimit, List.filterMap_append]
  cases hCall : c.limit? <;>
    simp [hCall, SessionCall.lastLimit]

/- A new session has no history. -/
theorem follows_new :
    new.Follows [] [] where
  grammar := rfl
  limit := rfl
  usable := by
    intro handle hSome
    cases hSome
  answered := by simp [new]

/- A call keeps a session to its history. -/
theorem Follows.step
    (hSession : s.Follows history answers)
    (hStep : CallStep s c answer next) :
    next.Follows (history ++ [c]) (answers ++ [answer]) := by
  cases hStep with
  | @installed handle hUsable =>
      refine ⟨?_, ?_, ?_, ?_⟩
      · simp [lastAccepted?_concat, SessionCall.accepted?,
          hUsable]
      · rw [lastLimit_concat]
        exact hSession.limit
      · rintro _ ⟨⟩
        exact hUsable
      · simp
  | @rejected handle cause hProblem =>
      refine ⟨?_, ?_, hSession.usable, ?_⟩
      · rw [lastAccepted?_concat, hSession.grammar]
        simp [SessionCall.accepted?, hProblem]
      · rw [lastLimit_concat]
        exact hSession.limit
      · simp [hSession.answered]
  | limited =>
      refine ⟨?_, ?_, hSession.usable, ?_⟩
      · rw [lastAccepted?_concat]
        exact hSession.grammar
      · rw [lastLimit_concat]
        rfl
      · simp [hSession.answered]
  | parsed =>
      refine ⟨?_, ?_, hSession.usable, ?_⟩
      · rw [lastAccepted?_concat]
        exact hSession.grammar
      · rw [lastLimit_concat]
        exact hSession.limit
      · simp [hSession.answered]

/- So does any run of calls. -/
theorem Follows.callAll
    (hSession : s.Follows history answers)
    (calls : List SessionCall) :
    (s.callAll calls).2.Follows (history ++ calls)
      (answers ++ (s.callAll calls).1) := by
  induction calls generalizing s history answers with
  | nil =>
      rw [Session.callAll, List.append_nil, List.append_nil]
      exact hSession
  | cons c calls ih =>
      have hNext := ih (hSession.step (callStep_call s c))
      rw [List.append_assoc, List.append_assoc] at hNext
      rw [callAll_cons]
      exact hNext

end Steps

------------------------------------------------------------
-- Parsing In A Session
------------------------------------------------------------

section Parsing

variable {s s' : Session}

/- Without a grammar, no text is looked at. -/
theorem parse_eq_noGrammar_iff
    (source : String) :
    s.parse source = .error .noGrammar ↔
      s.grammar = none := by
  rw [parse]
  cases s.grammar with
  | none => exact ⟨fun _ => rfl, fun _ => rfl⟩
  | some handle =>
      cases SourceFile.parse source s.limit <;>
        simp

/- With one, the tree is kept with it and with the text. -/
theorem parse_of_grammar
    {handle : GrammarHandle}
    (hGrammar : s.grammar = some handle)
    (source : String) :
    (∀ root,
      SourceFile.parse source s.limit = .ok root →
      s.parse source = .ok ⟨source, root, handle⟩) ∧
    ∀ e,
      SourceFile.parse source s.limit = .error e →
      s.parse source = .error (.invalid e) := by
  constructor
  · intro root hParse
    rw [parse, hGrammar, hParse]
  · intro e hParse
    rw [parse, hGrammar, hParse]

/- Only the limit has a say in trees and errors. -/
theorem parse_eq_of_limit_eq
    (hGrammar : s.grammar ≠ none)
    (hGrammar' : s'.grammar ≠ none)
    (hLimit : s.limit = s'.limit)
    (source : String) :
    (s.parse source).map ParsedFile.root =
      (s'.parse source).map ParsedFile.root := by
  rcases Option.ne_none_iff_exists'.mp hGrammar with
    ⟨handle, hHandle⟩
  rcases Option.ne_none_iff_exists'.mp hGrammar' with
    ⟨handle', hHandle'⟩
  rw [parse, parse, hHandle, hHandle', ← hLimit]
  cases SourceFile.parse source s.limit <;> rfl

end Parsing

------------------------------------------------------------
-- Main Result
------------------------------------------------------------

/-
  Behind any calls, a session holds the grammar that was
  accepted last, which can be used, and the limit that was
  set last.  One more call, with any calls behind it, is
  answered by that state alone.  A grammar that cannot be
  used is rejected for its problem and changes nothing; a
  limit changes only the limit; parsing changes nothing.  A
  text is parsed with the limit once a grammar is installed,
  and its tree is kept with the text and that grammar.
  Another session with the same limit has the same trees and
  errors, whatever grammar it holds.
-/
theorem callAll_follows_history
    (earlier : List SessionCall)
    (c : SessionCall)
    (later : List SessionCall) :
    let before := new.callAll earlier
    let after := before.2.call c
    new.callAll (earlier ++ c :: later) =
      ( before.1 ++ after.1 :: (after.2.callAll later).1,
        (after.2.callAll later).2 ) ∧
    before.2.grammar = SessionCall.lastAccepted? earlier ∧
    before.2.limit = SessionCall.lastLimit earlier ∧
    (∀ handle,
      before.2.grammar = some handle →
      handle.grammar.validate = .ok ()) ∧
    (∀ handle, c = .install handle →
      (handle.grammar.validate = .ok () →
        after =
          (.installed,
            { before.2 with grammar := some handle })) ∧
      ∀ cause,
        handle.grammar.validate = .error cause →
        after = (.rejected cause, before.2)) ∧
    (∀ limit, c = .withLimit limit →
      after = (.limited, { before.2 with limit })) ∧
    ∀ source, c = .parse source →
      after.2 = before.2 ∧
      (after.1 = .parsed (.error .noGrammar) ↔
        .installed ∉ before.1) ∧
      (∀ handle,
        SessionCall.lastAccepted? earlier = some handle →
        (∀ root,
          SourceFile.parse source
              (SessionCall.lastLimit earlier) =
            .ok root →
          after.1 =
            .parsed (.ok ⟨source, root, handle⟩)) ∧
        ∀ e,
          SourceFile.parse source
              (SessionCall.lastLimit earlier) =
            .error e →
          after.1 = .parsed (.error (.invalid e))) ∧
      ∀ others,
        .installed ∈ before.1 →
        .installed ∈ (new.callAll others).1 →
        SessionCall.lastLimit others =
          SessionCall.lastLimit earlier →
        (before.2.parse source).map ParsedFile.root =
          ((new.callAll others).2.parse source).map
            ParsedFile.root := by
  intro before after
  have hBefore : before.2.Follows earlier before.1 :=
    follows_new.callAll earlier
  have hStep : CallStep before.2 c after.1 after.2 :=
    callStep_call before.2 c
  refine
    ⟨callAll_append new earlier (c :: later),
      hBefore.grammar, hBefore.limit, hBefore.usable,
      ?_, ?_, ?_⟩
  · rintro handle rfl
    constructor
    · intro hUsable
      simp only [after, call, install, hUsable]
      rfl
    · intro cause hProblem
      simp only [after, call, install, hProblem]
      rfl
  · rintro limit rfl
    rfl
  · rintro source rfl
    refine ⟨rfl, ?_, ?_, ?_⟩
    · rw [← hBefore.answered,
        ← parse_eq_noGrammar_iff source]
      exact ⟨SessionAnswer.parsed.inj, congrArg _⟩
    · intro handle hLast
      rw [← hBefore.grammar] at hLast
      rcases parse_of_grammar hLast source with
        ⟨hTree, hError⟩
      rw [← hBefore.limit]
      exact
        ⟨fun root hParse => congrArg _ (hTree root hParse),
          fun e hParse => congrArg _ (hError e hParse)⟩
    · intro others hInstalled hInstalled' hLimit
      have hOthers :
          (new.callAll others).2.Follows others
            (new.callAll others).1 :=
        follows_new.callAll others
      refine parse_eq_of_limit_eq ?_ ?_ ?_ source
      · exact fun hNone =>
          hBefore.answered.mp hNone hInstalled
      · exact fun hNone =>
          hOthers.answered.mp hNone hInstalled'
      · rw [hBefore.limit, hOthers.limit, hLimit]

end Session

end FeSyntax
