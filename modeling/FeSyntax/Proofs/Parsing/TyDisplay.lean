import FeSyntax.Proofs.Lexing.Scanned
import FeSyntax.Proofs.Parsing.CompleteTy
import FeSyntax.Proofs.Parsing.Realize
import FeSyntax.Proofs.Parsing.RereadDefinition
import FeSyntax.Proofs.Parsing.SoundTy
import FeSyntax.Proofs.Parsing.Spans
import FeSyntax.Proofs.Parsing.TruePositions

/-
  This file proves that a type expression is parsed again
  from the text that messages show for it.  The text has the
  tokens that the type expression was read from, but for
  their places: no two of them stand so close that they are
  read as one.

  Key definitions include:
    * `TokenKind.IsSpelled`
    * `Displays`
    * `Ty.ParsesBack`

  Key theorems include:
    * `Displays.mul`
    * `Displays.separated`
    * `Ty.displays`
    * `Ty.parsesBack_of_readsAgain`
    * `Cursor.displayed_types_parse_back`
-/

namespace FeSyntax

------------------------------------------------------------
-- Texts That Show Spellings
------------------------------------------------------------

/- A kind that is written as a word is the kind of it. -/
def TokenKind.IsSpelled
    (kind : TokenKind) : Prop :=
  ∀ word, kind.word? = some word →
    Lexeme.TokenText word.toList kind

/- The tokens of a text have such kinds. -/
theorem isSpelled_of_mem_significantTokens
    {source : String}
    {t : Token}
    (hMem : t ∈ significantTokens source) :
    t.kind.IsSpelled := by
  intro word hWord
  have hProper : ∀ cause, t.kind ≠ .error cause := by
    intro cause hError
    rw [hError] at hWord
    cases hWord
  rcases isWritable_of_mem_significantTokens hMem hProper
    with ⟨-, text, hText⟩
  rw [← hText.eq_word hWord]
  exact hText

/-
  Where tokens of a text spell something, the characters are
  scanned as these tokens.
-/
def Displays
    (ends : List Char → Prop)
    (cs : List Char)
    (l : Language TokenKind) : Prop :=
  ∀ kinds ∈ l,
    (∀ kind ∈ kinds, kind.IsSpelled) →
    Scanner.IsScannedAs ends cs kinds

namespace Displays

variable {ends ends' : List Char → Prop}
variable {cs ds : List Char}
variable {l m : Language TokenKind}

theorem one :
    Displays ends [] 1 := by
  intro kinds hMem hSpelled
  rw [(Language.mem_one kinds).mp hMem]
  exact .nil

theorem word
    {kind : TokenKind}
    {w : String}
    (hWord : kind.word? = some w) :
    Displays EndsWord w.toList kind.written := by
  intro kinds hMem hSpelled
  rw [TokenKind.mem_written_iff.mp hMem] at hSpelled ⊢
  have hText := hSpelled kind (.head _) w hWord
  exact .of_longest fun rest hEnds =>
    Lexeme.isLongest_word hText hWord hEnds

/- A mark ends by itself, but `:` and `=` start others. -/
theorem punct
    {mark : Punct}
    (hColon : mark ≠ .colon)
    (hEquals : mark ≠ .equals) :
    Displays ends mark.spelling.toList mark.written := by
  intro kinds hMem hSpelled
  rw [TokenKind.mem_written_iff.mp hMem]
  refine .of_longest fun rest _ =>
    Lexeme.isLongest_punct ?_ rest
  intro q
  revert hColon hEquals
  cases mark <;> cases q <;> decide

/- What comes second must end what comes first. -/
theorem mul
    (hFirst : Displays ends cs l)
    (hSecond : Displays ends' ds m)
    (hEnds : ∀ rest, ends' rest → ends (ds ++ rest)) :
    Displays ends' (cs ++ ds) (l * m) := by
  intro kinds hMem hSpelled
  rcases Language.mem_mul.mp hMem with
    ⟨front, hFront, back, hBack, rfl⟩
  exact
    (hFirst front hFront fun kind hKind =>
      hSpelled kind (List.mem_append_left back hKind)).append
      (hSecond back hBack fun kind hKind =>
        hSpelled kind (List.mem_append_right front hKind))
      hEnds

/- So a mark may stand in front of anything. -/
theorem punct_mul
    {mark : Punct}
    (hColon : mark ≠ .colon)
    (hEquals : mark ≠ .equals)
    (hPart : Displays ends cs l) :
    Displays ends (mark.spelling.toList ++ cs)
      (mark.written * l) := by
  have hMark :
      Displays (fun _ => True) mark.spelling.toList
        mark.written :=
    punct hColon hEquals
  exact hMark.mul hPart fun _ _ => trivial

/- A blank can be put in front of what has a token. -/
theorem blank
    {first : TokenKind → Prop}
    (hPart : Displays ends cs l)
    (hStart : StartsWith first l) :
    Displays ends (' ' :: cs) l := by
  intro kinds hMem hSpelled
  refine (hPart kinds hMem hSpelled).blank ?_
  rintro rfl
  rcases hStart [] hMem with ⟨kind, hNone, -⟩
  cases hNone

/-
  Parts with a mark between them are shown with a text for
  the mark between theirs, if that shows the mark in front
  of any part and ends the words before it.
-/
theorem separated
    {α : Type}
    {text : α → String}
    {spellings : α → Language TokenKind}
    {first : TokenKind → Prop}
    {mark : Punct}
    {sep : String}
    {parts : List α}
    (hLead :
      ∀ cs l, Displays EndsWord cs l → StartsWith first l →
        Displays EndsWord (sep.toList ++ cs)
          (mark.written * l))
    (hSep : ∀ cs, EndsWord (sep.toList ++ cs))
    (hParts :
      ∀ a ∈ parts,
        Displays EndsWord (text a).toList (spellings a))
    (hStart :
      ∀ a ∈ parts, StartsWith first (spellings a)) :
    Displays EndsWord
      (sep.intercalate (parts.map text)).toList
      (Spelling.separated mark (parts.map spellings)) := by
  induction parts with
  | nil => exact one
  | cons a parts ih =>
      rcases List.forall_mem_cons.mp hParts with
        ⟨hPart, hParts⟩
      rcases List.forall_mem_cons.mp hStart with
        ⟨-, hStart⟩
      cases parts with
      | nil => simpa [Spelling.separated] using hPart
      | cons b parts =>
          have hSplit :
              Spelling.separated mark
                  ((a :: b :: parts).map spellings) =
                spellings a *
                  (mark.written *
                    Spelling.separated mark
                      ((b :: parts).map spellings)) := by
            simp [Spelling.separated, mul_assoc]
          have hBehind :
              StartsWith first
                (Spelling.separated mark
                  ((b :: parts).map spellings)) :=
            (hStart b (.head _)).mul
          rw [hSplit, List.map_cons, List.map_cons,
            String.intercalate_cons_cons, ← List.map_cons,
            String.toList_append, String.toList_append,
            List.append_assoc]
          refine hPart.mul
            (hLead _ _ (ih hParts hStart) hBehind)
            fun rest _ => ?_
          rw [List.append_assoc]
          exact hSep _

end Displays

------------------------------------------------------------
-- Type Expressions
------------------------------------------------------------

/- A path is shown with `::` between its names. -/
theorem Path.displays
    (p : Path) :
    Displays EndsWord p.display.toList p.spellings := by
  have hSep : "::".toList = [':', ':'] := by decide
  have hStart :
      ∀ i ∈ p.segments,
        StartsWith (fun _ => True) i.spellings :=
    fun i _ => .written trivial
  rw [display, spellings]
  refine Displays.separated (fun cs l hPart _ => ?_)
    (fun cs => ?_) (fun i _ => ?_) hStart
  · exact hPart.punct_mul (by decide) (by decide)
  · rw [hSep]
    exact (by decide : ¬ Lexeme.ContinuesWord ':')
  · exact .word (TokenKind.word?_ofWord i.name)

namespace Ty

theorem displayAll_eq
    (tys : List Ty) :
    displayAll tys = tys.map display := by
  induction tys with
  | nil => rfl
  | cons ty tys ih =>
      rw [displayAll, ih, List.map_cons]

/- There is a blank behind `mut`, which ends the word. -/
theorem displays_reference
    {inner : Ty}
    (hKeyword : inner.KeywordWins)
    (hInner :
      Displays EndsWord inner.display.toList
        inner.spellings)
    (isMut : Bool)
    (span : Span) :
    Displays EndsWord
      (reference isMut inner span).display.toList
      (reference isMut inner span).spellings := by
  rw [spellings, mul_assoc]
  cases isMut with
  | false =>
      rw [display, Spelling.present, if_neg (by simp),
        one_mul, String.toList_append]
      exact hInner.punct_mul (by decide) (by decide)
  | true =>
      have hText :
          "&mut ".toList =
            Punct.ampersand.spelling.toList ++
              (Keyword.mutKw.spelling.toList ++ [' ']) := by
        decide
      have hMut :
          Displays EndsWord Keyword.mutKw.spelling.toList
            Keyword.mutKw.written :=
        .word rfl
      have hBehind := hMut.mul
        (hInner.blank (startsWith hKeyword)) fun _ _ =>
          (by decide : ¬ Lexeme.ContinuesWord ' ')
      rw [display, Spelling.present, if_pos rfl,
        String.toList_append, hText, List.append_assoc,
        List.append_assoc]
      exact hBehind.punct_mul (by decide) (by decide)

/- A tuple is shown with a comma and a blank in between. -/
theorem displays_tuple
    {elements : List Ty}
    (hKeyword : ∀ t ∈ elements, t.KeywordWins)
    (hElements :
      ∀ t ∈ elements,
        Displays EndsWord t.display.toList t.spellings)
    (span : Span) :
    Displays EndsWord (tuple elements span).display.toList
      (tuple elements span).spellings := by
  have hSep : ", ".toList = [',', ' '] := by decide
  have hParts :
      Displays EndsWord
        (", ".intercalate (elements.map display)).toList
        (Spelling.separated .comma
          (elements.map spellings)) := by
    refine Displays.separated
      (fun cs l hPart hStart => ?_) (fun cs => ?_)
      hElements fun t hMem => startsWith (hKeyword t hMem)
    · rw [hSep]
      exact (hPart.blank hStart).punct_mul (by decide)
        (by decide)
    · rw [hSep]
      exact (by decide : ¬ Lexeme.ContinuesWord ',')
  have hClose :
      Displays EndsWord Punct.rightParen.spelling.toList
        Punct.rightParen.written :=
    .punct (by decide) (by decide)
  have hBehind := hParts.mul hClose fun _ _ =>
    (by decide : ¬ Lexeme.ContinuesWord ')')
  rw [display, displayAll_eq, spellings, spellingsAll_eq,
    mul_assoc, String.append_assoc, String.toList_append,
    String.toList_append]
  exact hBehind.punct_mul (by decide) (by decide)

/-
  What is shown for a type expression is scanned as the
  tokens that spell it.
-/
theorem displays
    {n : Nat}
    {t : Ty}
    (hFits : t.Fits n) :
    Displays EndsWord t.display.toList t.spellings := by
  induction n generalizing t with
  | zero => exact absurd hFits t.not_fits_zero
  | succ n ih =>
      cases t with
      | path p =>
          rw [display, spellings]
          exact p.displays
      | reference isMut inner span =>
          have hInner := (fits_reference.mp hFits).2
          exact
            displays_reference hInner.1 (ih hInner) isMut
              span
      | tuple elements span =>
          have hElements := fits_tuple.mp hFits
          exact displays_tuple
            (fun t hMem => (hElements t hMem).1)
            (fun t hMem => ih (hElements t hMem)) span
      | primitive kind span =>
          rw [display, spellings]
          exact .word rfl

------------------------------------------------------------
-- Type Expressions Without Spans
------------------------------------------------------------

mutual

/- Changing spans twice changes them once. -/
theorem mapSpans_mapSpans
    (f g : Span → Span)
    (t : Ty) :
    (t.mapSpans f).mapSpans g = t.mapSpans (g ∘ f) := by
  cases t with
  | path p =>
      simp [mapSpans, Path.mapSpans, Identifier.mapSpans,
        Function.comp_def]
  | reference isMut inner span =>
      rw [mapSpans, mapSpans, mapSpans,
        mapSpans_mapSpans f g inner]
      rfl
  | tuple elements span =>
      rw [mapSpans, mapSpans, mapSpans,
        mapSpansAll_mapSpansAll f g elements]
      rfl
  | primitive kind span => rfl

theorem mapSpansAll_mapSpansAll
    (f g : Span → Span)
    (tys : List Ty) :
    mapSpansAll g (mapSpansAll f tys) =
      mapSpansAll (g ∘ f) tys := by
  cases tys with
  | nil => rfl
  | cons ty tys =>
      rw [mapSpansAll, mapSpansAll, mapSpansAll,
        mapSpans_mapSpans f g ty,
        mapSpansAll_mapSpansAll f g tys]

end

mutual

/- What is shown does not depend on spans. -/
theorem display_mapSpans
    (f : Span → Span)
    (t : Ty) :
    (t.mapSpans f).display = t.display := by
  cases t with
  | path p =>
      rw [mapSpans, display, display, Path.display,
        Path.display, Path.mapSpans, List.map_map]
      rfl
  | reference isMut inner span =>
      cases isMut <;>
        rw [mapSpans, display, display,
          display_mapSpans f inner]
  | tuple elements span =>
      rw [mapSpans, display, display,
        displayAll_mapSpansAll f elements]
  | primitive kind span => rfl

theorem displayAll_mapSpansAll
    (f : Span → Span)
    (tys : List Ty) :
    displayAll (mapSpansAll f tys) = displayAll tys := by
  cases tys with
  | nil => rfl
  | cons ty tys =>
      rw [mapSpansAll, displayAll, displayAll,
        display_mapSpans f ty,
        displayAll_mapSpansAll f tys]

end

/- Type expressions of one shape are shown alike. -/
theorem display_eq_of_shape
    {t t' : Ty}
    (hSame : t.mapSpans .forget = t'.mapSpans .forget) :
    t.display = t'.display := by
  rw [← display_mapSpans .forget t, hSame,
    display_mapSpans .forget t']

------------------------------------------------------------
-- Parsing What Is Shown
------------------------------------------------------------

/-
  What is shown for the type expression is parsed as a type
  expression under the limit, up to the end of the text.
  That differs from the first one in spans only, and it is
  shown in the same way.
-/
def ParsesBack
    (limit : Nat)
    (t : Ty) : Prop :=
  ∃ t' c,
    (Cursor.ofString t.display limit).ty = (.ok t', c) ∧
    t'.mapSpans .forget = t.mapSpans .forget ∧
    c.rest = [] ∧
    c.current.kind = .endOfText ∧
    t'.display = t.display

section Texts

variable {source : String}
variable {limit : Nat}
variable {t : Ty}

/- Only the shape decides what is shown and parsed. -/
theorem ParsesBack.congr
    {t' : Ty}
    (hBack : t'.ParsesBack limit)
    (hSame : t'.mapSpans .forget = t.mapSpans .forget) :
    t.ParsesBack limit := by
  have hDisplay := display_eq_of_shape hSame
  rw [ParsesBack, hDisplay, hSame] at hBack
  exact hBack

/- Tokens of a text that are read can be shown instead. -/
theorem parsesBack_of_done
    {part : List Token}
    (hPart : part ⊆ significantTokens source)
    (hDone : Parser.ty limit part = .done t []) :
    t.ParsesBack limit := by
  have hLexed : Lexed part := fun u hMem =>
    lexed_significantTokens source u (hPart hMem)
  rcases Parser.ty_sound limit hLexed hDone with
    ⟨hReads, hFits⟩
  have hSpelled : part.map Token.kind ∈ t.spellings :=
    reads_nil_iff.mp hReads
  have hScanned :=
    displays hFits (part.map Token.kind) hSpelled
      (List.forall_mem_map.mpr fun u hMem =>
        isSpelled_of_mem_significantTokens (hPart hMem))
  have hKinds :
      significantKinds t.display = part.map Token.kind := by
    refine hScanned.significantKinds_eq trivial ?_
    refine List.forall_mem_map.mpr fun u hMem => ?_
    exact (mem_tokenize_of_mem_significantTokens
      (hPart hMem)).2
  have hAgain :
      Reads (significantTokens t.display) t.spellings [] := by
    rw [reads_nil_iff, ← significantKinds, hKinds]
    exact hSpelled
  rcases Parser.ty_complete limit hFits hAgain
      (by simp [EndsPath, nextKind]) with
    ⟨t', hParse, hSame⟩
  refine
    ⟨t', (Cursor.ofString t.display limit).moveTo [], ?_,
      hSame, rfl, Cursor.kind_stopOf t.display,
      display_eq_of_shape hSame⟩
  have hRun :
      Parser.ty (Cursor.ofString t.display limit).limit
          (Cursor.ofString t.display limit).rest =
        .done t' [] :=
    hParse
  rw [Cursor.ty, Cursor.run, hRun]

/- A type expression that is read again can be shown. -/
theorem parsesBack_of_readsAgain
    {all : List Token}
    {span : Span}
    (hAll : all ⊆ significantTokens source)
    (hAgain : (Parser.ty limit).ReadsAgain all span t) :
    t.ParsesBack limit := by
  rcases hAgain with ⟨part, hPart, -, hRead⟩
  have hDone := hRead .identity
  rw [Relocation.map_token_identity] at hDone
  have hBack := parsesBack_of_done
    (fun u hMem => hAll (hPart.subset hMem)) hDone
  refine hBack.congr ?_
  exact mapSpans_mapSpans _ _ t

end Texts

end Ty

------------------------------------------------------------
-- Type Expressions That Calls Give
------------------------------------------------------------

namespace Cursor

section Calls

variable {c : Cursor}
variable {piece : Piece}
variable {v : Parsed}

theorem readsAgain_of_run
    {α : Type}
    {p : Nat → Parser α}
    {outline : α → Outline}
    {wrap : α → Parsed}
    (hGives :
      (p c.limit).Gives c.rest fun a =>
        (outline a).ReadsAgain c.limit c.rest)
    (hWrap : ∀ a, (wrap a).nodes = (outline a).nodes)
    (hCall :
      ((c.run p).map (Except.map wrap) id).1 = .ok v) :
    ∀ n ∈ v.nodes, n.ReadsAgain c.limit c.rest := by
  rw [run] at hCall
  cases hRun : p c.limit c.rest with
  | stopped fault rest =>
      rw [hRun] at hCall
      cases hCall
  | done a rest =>
      rw [hRun] at hCall
      cases hCall
      rw [hWrap]
      exact (hGives (List.suffix_refl _) hRun).2

/- The nodes of what a call gives can be read again. -/
theorem readsAgain_of_call
    (hCall : (c.call piece).1 = .ok v) :
    ∀ n ∈ v.nodes, n.ReadsAgain c.limit c.rest := by
  cases piece with
  | sourceFile =>
      rw [call, sourceFile, run] at hCall
      cases hRun : Parser.definitions c.limit c.rest with
      | stopped fault rest =>
          rw [hRun] at hCall
          cases hCall
      | done ds rest =>
          rw [hRun] at hCall
          cases hCall
          intro n hMem
          rw [Parsed.nodes_eq_walkAll,
            Outline.mem_walkAll] at hMem
          rcases hMem with ⟨o, hOutline, hNode⟩
          rcases List.mem_map.mp hOutline with
            ⟨d, hDefinition, rfl⟩
          exact Parser.definitions_give hRun d hDefinition n
            hNode
  | definition =>
      exact readsAgain_of_run
        (Parser.definition_gives (Nat.le_refl _))
        (fun _ => rfl) hCall
  | ty =>
      exact readsAgain_of_run
        (Parser.ty_gives (Nat.le_refl _))
        (fun _ => rfl) hCall
  | expression =>
      exact readsAgain_of_run
        (Parser.expression_gives (Nat.le_refl _))
        (fun _ => rfl) hCall
  | pattern =>
      exact readsAgain_of_run
        (Parser.pattern_gives (Nat.le_refl _))
        (fun _ => rfl) hCall

end Calls

/-
  Type expressions are parsed back from what is shown for
  them, under the limit that they were parsed under: the one
  that a fresh cursor gives, and every one in a tree that a
  cursor gives behind any calls, failures included.
-/
theorem displayed_types_parse_back
    (source : String)
    (limit : Nat) :
    (∀ t c,
      (ofString source limit).ty = (.ok t, c) →
      t.ParsesBack limit) ∧
    ∀ (earlier : List Piece) (piece : Piece) (v : Parsed),
      let before := (ofString source limit).callAll earlier
      (before.2.call piece).1 = .ok v →
      ∀ t, Node.ty t ∈ v.nodes → t.ParsesBack limit := by
  have hNodes :
      ∀ (earlier : List Piece) (piece : Piece)
        (v : Parsed),
        (((ofString source limit).callAll earlier).2.call
          piece).1 = .ok v →
        ∀ t, Node.ty t ∈ v.nodes → t.ParsesBack limit := by
    intro earlier piece v hCall t hMem
    have hBefore :=
      (consistent_ofString source limit).callAll earlier
    have hAgain := readsAgain_of_call hCall _ hMem
    rw [hBefore.limit] at hAgain
    exact Ty.parsesBack_of_readsAgain hBefore.rest.subset
      hAgain
  refine ⟨fun t c hParse => ?_, hNodes⟩
  refine hNodes [] .ty (.ty t) ?_ t ?_
  · rw [callAll, call, hParse]
    rfl
  · rw [Parsed.nodes]
    cases t <;> exact .head _

/- A type with blanks and a comment between its tokens. -/
def spacedTy : String :=
  "& /* é */ mut ( u8 ,mut\n:: b,&&u64 ,& ( ) )"

theorem displayed_types_parse_back_spacedTy :
    (∃ t c,
      (ofString spacedTy 5).ty = (.ok t, c) ∧
      t.display = "&mut (u8, mut::b, &&u64, &())" ∧
      t.ParsesBack 5) ∧
    ∃ v,
      (((ofString spacedTy 5).callAll [.pattern]).2.call
        .ty).1 = .ok v ∧
      v.nodes.length = 12 ∧
      ∀ t, Node.ty t ∈ v.nodes → t.ParsesBack 5 := by
  rcases displayed_types_parse_back spacedTy 5 with
    ⟨hFresh, hNodes⟩
  constructor
  · have hShown :
        (ofString spacedTy 5).ty.1.map Ty.display =
          .ok "&mut (u8, mut::b, &&u64, &())" := by
      decide +kernel
    rcases hCall : (ofString spacedTy 5).ty with ⟨result, c⟩
    rw [hCall] at hShown
    cases result with
    | error e => cases hShown
    | ok t =>
        exact
          ⟨t, c, rfl, Except.ok.inj hShown,
            hFresh t c hCall⟩
  · have hRuns :
        ((((ofString spacedTy 5).callAll
          [.pattern]).2.call .ty).1.map
            fun v => v.nodes.length) =
          .ok 12 := by
      decide +kernel
    cases hCall :
        (((ofString spacedTy 5).callAll
          [.pattern]).2.call .ty).1 with
    | error e =>
        rw [hCall] at hRuns
        cases hRuns
    | ok v =>
        rw [hCall] at hRuns
        exact
          ⟨v, rfl, Except.ok.inj hRuns,
            hNodes [.pattern] .ty v hCall⟩

end Cursor

end FeSyntax
