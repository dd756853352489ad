import FeSyntax.Proofs.Highlighting.TokenCover
import FeSyntax.Proofs.Lexing.Relocated

/-
  This file proves that a token needs nothing around it to
  be read.  The text of a token has that token only, and a
  line feed keeps any two texts apart, so texts of tokens
  with line feeds between them have these tokens, whatever
  stood between them before.

  Key definitions include:
    * `Token.content`
    * `relined`

  Key theorems include:
    * `tokenize_of_tokenText`
    * `exists_tokenize_lines`
    * `map_content_relined`
    * `tokenize_composes_at_lineFeeds`
-/

namespace FeSyntax

------------------------------------------------------------
-- Texts Of One Token
------------------------------------------------------------

/- No word is a token that is not written as one. -/
theorem TokenKind.ofWord_ne
    {kind : TokenKind}
    (hNone : kind.word? = none)
    (word : String) :
    ofWord word ≠ kind := by
  rintro rfl
  rw [word?_ofWord] at hNone
  cases hNone

namespace Lexeme

variable {text : List Char}
variable {kind : TokenKind}

/- The text of a token is the longest token in itself. -/
theorem TokenText.isLongest
    (hText : TokenText text kind) :
    IsLongest (text ++ []) ⟨kind, text.length⟩ := by
  refine .of_append [] hText fun p _ hPrefix _ => ?_
  rw [List.append_nil] at hPrefix
  exact hPrefix.length_le

/- No text of a token is that of an error. -/
theorem TokenText.kind_ne_error
    (hText : TokenText text kind)
    (cause : LexError) :
    kind ≠ .error cause := by
  cases hText with
  | word _ _ => exact TokenKind.ofWord_ne rfl _
  | _ => simp

end Lexeme

/- The text of a token has this token and the end. -/
theorem tokenize_of_tokenText
    {text : String}
    {kind : TokenKind}
    (hText : Lexeme.TokenText text.toList kind) :
    let stop := Place.start.afterAll text.toList
    tokenize text =
      [⟨kind, text, .between .start stop⟩,
        Scanner.endToken stop] := by
  intro stop
  rcases Scanner.next_of_longest
      (List.forall_mem_nil Text.IsBlank) hText.isLongest
      .start with ⟨hMore, hNext⟩
  rw [List.nil_append, List.append_nil] at hMore hNext
  have hEnd :
      (⟨[], stop⟩ : Scanner).tokens =
        [Scanner.endToken stop] :=
    Scanner.tokens_of_end rfl
  rw [tokenize, Scanner.ofString,
    Scanner.tokens_of_more hMore, hNext, Place.afterAll_nil,
    hEnd, String.ofList_toList]

------------------------------------------------------------
-- Tokens Without Their Places
------------------------------------------------------------

/- What a token is, wherever it stands. -/
def Token.content
    (t : Token) : TokenKind × String :=
  (t.kind, t.text)

/- The end is told from other tokens without its place. -/
theorem map_content_shownTokens
    (source : String) :
    (shownTokens source).map Token.content =
      ((tokenize source).map Token.content).filter
        (fun c => c.1 ≠ .endOfText) := by
  rw [shownTokens, List.filter_map]
  rfl

------------------------------------------------------------
-- Tokens With Line Feeds Between Them
------------------------------------------------------------

/- The tokens of a text with only line feeds between them. -/
def relined
    (source : String) : String :=
  "\n".intercalate ((shownTokens source).map Token.text)

/- Texts of tokens in lines have these tokens. -/
theorem exists_tokenize_lines
    {ts : List Token}
    (hTexts :
      ∀ t ∈ ts, Lexeme.TokenText t.text.toList t.kind) :
    ∃ tokens p,
      tokenize ("\n".intercalate (ts.map Token.text)) =
        tokens ++ [Scanner.endToken p] ∧
      tokens.map Token.content = ts.map Token.content := by
  induction ts with
  | nil => exact ⟨[], .start, rfl, rfl⟩
  | cons t ts ih =>
      have hText := hTexts t List.mem_cons_self
      let stop := Place.start.afterAll t.text.toList
      let first : Token :=
        ⟨t.kind, t.text, .between .start stop⟩
      have hFirst :
          tokenize t.text =
            [first] ++ [Scanner.endToken stop] :=
        tokenize_of_tokenText hText
      cases ts with
      | nil =>
          refine ⟨[first], stop, ?_, rfl⟩
          rw [List.map_singleton,
            String.intercalate_singleton, hFirst]
      | cons u ts =>
          rcases ih fun v hMem =>
              hTexts v (List.mem_cons_of_mem _ hMem) with
            ⟨tokens, p, hTokens, hContent⟩
          have hNone : NoErrors [first] :=
            .cons hText.kind_ne_error .nil
          let r := Relocation.down
            (t.text.utf8ByteSize + 1) (lineFeeds t.text + 1)
          refine
            ⟨first :: tokens.map r.token,
              p.down (t.text.utf8ByteSize + 1)
                (lineFeeds t.text + 1), ?_, ?_⟩
          · rw [List.map_cons, List.map_cons,
              String.intercalate_cons_cons, ← List.map_cons,
              tokenize_append_lineFeed hFirst hNone, hTokens,
              List.map_append]
            rfl
          · rw [List.map_cons, List.map_map, List.map_cons]
            exact congrArg (t.content :: ·) hContent

section Relined

variable {source : String}

/- Without errors nothing but places changes. -/
theorem map_content_relined
    (hNone : NoErrors (tokenize source)) :
    (tokenize (relined source)).map Token.content =
      (tokenize source).map Token.content := by
  rcases tokenize_eq_shownTokens source with ⟨p, hShown⟩
  have hTexts :
      ∀ t ∈ shownTokens source,
        Lexeme.TokenText t.text.toList t.kind := by
    intro t hMem
    rcases List.mem_filter.mp hMem with ⟨hToken, hMore⟩
    exact
      (Scanner.ofString source).tokenText_of_mem_tokens
        hToken (by simpa using hMore) (hNone t hToken)
  rcases exists_tokenize_lines hTexts with
    ⟨tokens, q, hTokens, hContent⟩
  rw [relined, hTokens, List.map_append, hContent, hShown,
    List.map_append]
  rfl

/- Only what the tokens are decides where they are put. -/
theorem relined_congr
    {source' : String}
    (hSame :
      (tokenize source).map Token.content =
        (tokenize source').map Token.content) :
    relined source = relined source' := by
  have hTexts :
      ∀ ts : List Token,
        ts.map Token.text =
          (ts.map Token.content).map Prod.snd := by
    intro ts
    rw [List.map_map]
    rfl
  rw [relined, relined, hTexts, hTexts,
    map_content_shownTokens, map_content_shownTokens, hSame]

end Relined

------------------------------------------------------------
-- Lines And Tokens
------------------------------------------------------------

/-
  Behind a text without errors and a line feed, a text has
  the tokens that it has alone, further down by the bytes
  and lines in front and in the same columns.  And a text
  without errors has the same tokens, the end included, when
  there are only line feeds between them, which a second
  time changes nothing.
-/
theorem tokenize_composes_at_lineFeeds :
    (∀ a b : String,
      NoErrors (tokenize a) →
      tokenize (a ++ "\n" ++ b) =
        shownTokens a ++
          (tokenize b).map fun t =>
            { t with
              span :=
                ⟨t.span.start + (a.utf8ByteSize + 1),
                  t.span.stop + (a.utf8ByteSize + 1),
                  t.span.line + (a.toList.count '\n' + 1),
                  t.span.column⟩ }) ∧
    ∀ source : String,
      NoErrors (tokenize source) →
      ((tokenize (relined source)).map fun t =>
          (t.kind, t.text)) =
        ((tokenize source).map fun t => (t.kind, t.text)) ∧
      relined (relined source) = relined source := by
  constructor
  · intro a b hNone
    rcases tokenize_eq_shownTokens a with ⟨p, hShown⟩
    have hFront : NoErrors (shownTokens a) :=
      fun t hMem => hNone t (List.mem_of_mem_filter hMem)
    exact tokenize_append_lineFeed hShown hFront b
  · intro source hNone
    have hSame := map_content_relined hNone
    exact ⟨hSame, relined_congr hSame⟩

/- Five tokens with no blank between them. -/
def touchingTokens : String :=
  "1u86::\"é\n\"//\"é"

theorem tokenize_composes_at_lineFeeds_touchingTokens :
    NoErrors (tokenize touchingTokens) ∧
    ((tokenize (touchingTokens ++ "\n" ++ "*/ x")).drop
        5).map Token.span =
      [⟨17, 18, 3, 1⟩, ⟨18, 19, 3, 2⟩, ⟨20, 21, 3, 4⟩,
        ⟨21, 21, 3, 5⟩] ∧
    relined touchingTokens =
      "1u8\n6\n::\n\"é\n\"\n//\"é" ∧
    relined (relined touchingTokens) =
      relined touchingTokens := by
  have hNone : NoErrors (tokenize touchingTokens) := by
    decide +kernel
  have hSize : touchingTokens.utf8ByteSize = 16 := by
    decide +kernel
  have hLines : touchingTokens.toList.count '\n' = 1 := by
    decide +kernel
  have hShown : (shownTokens touchingTokens).length = 5 := by
    decide +kernel
  have hBehind :
      (tokenize "*/ x").map Token.span =
        [⟨0, 1, 1, 1⟩, ⟨1, 2, 1, 2⟩, ⟨3, 4, 1, 4⟩,
          ⟨4, 4, 1, 5⟩] := by
    decide +kernel
  rcases tokenize_composes_at_lineFeeds with
    ⟨hAppend, hRelined⟩
  refine
    ⟨hNone, ?_, by decide +kernel,
      (hRelined touchingTokens hNone).2⟩
  rw [hAppend touchingTokens "*/ x" hNone, ← hShown,
    List.drop_left, List.map_map, hSize, hLines]
  have hMoved :=
    congrArg
      (List.map fun s : Span =>
        (⟨s.start + 17, s.stop + 17, s.line + 2, s.column⟩ :
          Span))
      hBehind
  rw [List.map_map] at hMoved
  exact hMoved

end FeSyntax
