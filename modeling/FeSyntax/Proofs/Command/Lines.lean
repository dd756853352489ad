import FeSyntax.Proofs.Grammar.Coverage
import FeSyntax.Proofs.Highlighting.Page
import FeSyntax.Proofs.Lexing.Relocated
import FeSyntax.Proofs.Text.Decimal
import Mathlib.Algebra.BigOperators.Group.List.Basic
import Mathlib.Algebra.GroupWithZero.Nat

/-
  This file proves how the records of tokens take up the
  lines of what is printed.  A token whose text has no line
  feed takes one line.  Every line feed in the text of a
  token makes one line more, and only strings and block
  comments have them.

  Key definitions include:
    * `Text.lines`
    * `Token.FillLines`

  Key theorems include:
    * `Text.lines_intercalate`
    * `Text.length_lines`
    * `Token.fillLines_intercalate`
    * `Token.string_or_blockComment_of_lineFeed`
    * `Session.tokens_fill_lines`
-/

namespace FeSyntax

------------------------------------------------------------
-- Lines Of A Text
------------------------------------------------------------

/- A list has one part more than it has separators. -/
theorem length_splitOn_eq_count
    {α : Type}
    [BEq α]
    [LawfulBEq α]
    (separator : α)
    (xs : List α) :
    (xs.splitOn separator).length =
      xs.count separator + 1 := by
  induction xs with
  | nil => rfl
  | cons x xs ih =>
      rw [List.splitOn_cons_eq_if_modifyHead,
        List.count_cons]
      by_cases hSame : x == separator
      · rw [if_pos hSame, if_pos hSame, List.length_cons,
          ih]
      · rw [if_neg hSame, if_neg hSame,
          List.length_modifyHead, ih]

namespace Text

variable {text : String}
variable {records : List String}

/-
  The lines of a text, which line feeds divide.  A text
  without characters has no lines.
-/
def lines
    (text : String) : List String :=
  if text = "" then
    []
  else
    (text.toList.splitOn '\n').map String.ofList

/- A text that is not empty is divided at line feeds. -/
theorem lines_of_ne_empty
    (hSome : text ≠ "") :
    lines text =
      (text.toList.splitOn '\n').map String.ofList := by
  unfold lines
  rw [if_neg hSome]

/- A line feed between texts divides their lines. -/
theorem lines_append_lineFeed
    {a b : String}
    (hFirst : a ≠ "")
    (hSecond : b ≠ "") :
    lines (a ++ "\n" ++ b) = lines a ++ lines b := by
  have hBoth : a ++ "\n" ++ b ≠ "" := by simp
  have hChars :
      (a ++ "\n" ++ b).toList =
        a.toList ++ '\n' :: b.toList := by
    simp
  rw [lines_of_ne_empty hBoth, lines_of_ne_empty hFirst,
    lines_of_ne_empty hSecond, hChars,
    List.splitOn_append_cons_self, List.map_append]

/- Texts joined by line feeds have the lines of each. -/
theorem lines_intercalate
    (hSome : ∀ r ∈ records, r ≠ "") :
    lines ("\n".intercalate records) =
      records.flatMap lines := by
  induction records with
  | nil => rfl
  | cons r records ih =>
      cases records with
      | nil =>
          rw [String.intercalate_singleton,
            List.flatMap_singleton]
      | cons q records =>
          have hRest :
              "\n".intercalate (q :: records) ≠ "" := by
            cases records with
            | nil =>
                rw [String.intercalate_singleton]
                exact hSome q (.tail _ (.head _))
            | cons p records =>
                rw [String.intercalate_cons_cons]
                simp
          rw [String.intercalate_cons_cons,
            lines_append_lineFeed (hSome r (.head _)) hRest,
            ih (fun p hMem => hSome p (.tail _ hMem)),
            List.flatMap_cons (x := r)]

/- A text has one line more than it has line feeds. -/
theorem length_lines
    (hSome : text ≠ "") :
    (lines text).length = lineFeeds text + 1 := by
  rw [lines_of_ne_empty hSome, List.length_map,
    length_splitOn_eq_count]
  rfl

/- A text without line feeds is its only line. -/
theorem lines_eq_singleton
    (hSome : text ≠ "")
    (hNone : '\n' ∉ text.toList) :
    lines text = [text] := by
  rw [lines_of_ne_empty hSome,
    List.splitOn_eq_singleton hNone, List.map_singleton,
    String.ofList_toList]

end Text

------------------------------------------------------------
-- Line Feeds Of Tokens
------------------------------------------------------------

/- Numbers are written without line feeds. -/
theorem Text.lineFeed_notMem_toString
    (n : Nat) :
    '\n' ∉ (toString n).toList := by
  rw [toList_toString]
  intro hMem
  have hDigit := isDigit_of_mem_toDigits hMem
  exact absurd hDigit (by decide)

theorem SyntaxError.lineFeed_notMem_placeText
    (line column : Nat) :
    '\n' ∉ (placeText line column).toList := by
  have hLine := Text.lineFeed_notMem_toString line
  have hColumn := Text.lineFeed_notMem_toString column
  unfold placeText
  simp only [String.toList_append, List.mem_append, not_or]
  exact ⟨⟨hLine, by decide⟩, hColumn⟩

/- Neither labels nor captures have line feeds. -/
theorem TokenKind.lineFeed_notMem_label
    {kind : TokenKind}
    (hMore : kind ≠ .endOfText)
    (hProper : ∀ cause, kind ≠ .error cause) :
    '\n' ∉ kind.label.toList := by
  have hNames :
      ∀ entry ∈ Grammar.requiredKinds,
        '\n' ∉ entry.kind.toList := by
    decide
  exact hNames _ (hasLabel_label hMore hProper).required

theorem Capture.lineFeed_notMem_name
    (c : Capture) :
    '\n' ∉ c.name.toList := by
  cases c <;> decide

namespace Lexeme

/- Only strings and block comments go over line ends. -/
theorem TokenText.string_or_blockComment_of_lineFeed
    {text : List Char}
    {kind : TokenKind}
    (hText : TokenText text kind)
    (hLine : '\n' ∈ text) :
    (∃ value, kind = .string value) ∨
      (kind = .comment ∧ ['/', '*'] <+: text) := by
  have hEnds : EndsLine '\n' := Or.inl rfl
  have hSuffix
      (suffix : Option IntSuffix) :
      '\n' ∉ suffixText suffix := by
    cases suffix with
    | none => decide
    | some s => cases s <;> decide
  cases hText with
  | string _ => exact Or.inl ⟨_, rfl⟩
  | blockComment _ =>
      exact Or.inr ⟨rfl, _, rfl⟩
  | lineComment hBody =>
      exfalso
      simp only [List.mem_cons] at hLine
      rcases hLine with hSlash | hSlash | hMem
      · exact absurd hSlash (by decide)
      · exact absurd hSlash (by decide)
      · exact hBody _ hMem hEnds
  | decimal suffix _ hDigits =>
      exfalso
      rcases List.mem_append.mp hLine with hMem | hMem
      · exact absurd (hDigits _ hMem) (by decide)
      · exact hSuffix suffix hMem
  | hexadecimal suffix _ hDigits =>
      exfalso
      simp only [List.mem_cons, List.mem_append] at hLine
      rcases hLine with hZero | hMark | hMem | hMem
      · exact absurd hZero (by decide)
      · exact absurd hMark (by decide)
      · exact absurd (hDigits _ hMem) (by decide)
      · exact hSuffix suffix hMem
  | word hStart hRest =>
      exfalso
      rcases List.mem_cons.mp hLine with rfl | hMem
      · exact absurd hStart (by decide)
      · exact absurd (hRest _ hMem) (by decide)
  | punct p =>
      exfalso
      revert hLine
      cases p <;> decide

end Lexeme

------------------------------------------------------------
-- Lines Of Records
------------------------------------------------------------

namespace Token

variable {t : Token}
variable {ts : List Token}

/- A record has a place and a tab at least. -/
theorem record_ne_empty
    (t : Token)
    (label : String) :
    t.record label ≠ "" := by
  intro hEmpty
  have hChars := toList_record t label
  rw [hEmpty] at hChars
  simp at hChars

/- The line feeds of a record are those of the token. -/
theorem lineFeeds_record
    {label : String}
    (hLabel : '\n' ∉ label.toList) :
    lineFeeds (t.record label) = lineFeeds t.text := by
  have hPlace :=
    SyntaxError.lineFeed_notMem_placeText t.span.line
      t.span.column
  unfold lineFeeds
  rw [toList_record, List.count_append,
    List.count_eq_zero.mpr hPlace,
    List.count_cons_of_ne (by decide), List.count_append,
    List.count_eq_zero.mpr hLabel,
    List.count_cons_of_ne (by decide)]
  omega

/- A token is on one line if its text is. -/
theorem lineFeeds_text_eq_zero_iff :
    lineFeeds t.text = 0 ↔ '\n' ∉ t.text.toList :=
  List.count_eq_zero

/-
  How the records of tokens fill the lines of a text: each
  of them fills lines of its own, one and one more for each
  line feed in the token.  So the lines are the records, or
  as many as the tokens, just if no token has a line feed.
-/
structure FillLines
    (ts : List Token)
    (label : Token → String)
    (text : String) : Prop where
  lines_eq :
    Text.lines text =
      ts.flatMap (fun t => Text.lines (t.record (label t)))
  length_lines_eq :
    (Text.lines text).length =
      ts.length +
        (ts.map (fun t => lineFeeds t.text)).sum
  lines_eq_records_iff :
    Text.lines text = ts.map (fun t => t.record (label t)) ↔
      ∀ t ∈ ts, '\n' ∉ t.text.toList
  length_lines_eq_length_iff :
    (Text.lines text).length = ts.length ↔
      ∀ t ∈ ts, '\n' ∉ t.text.toList

/- Records that are joined by line feeds fill the lines. -/
theorem fillLines_intercalate
    {label : Token → String}
    (hLabel : ∀ t ∈ ts, '\n' ∉ (label t).toList) :
    FillLines ts label
      ("\n".intercalate
        (ts.map fun t => t.record (label t))) := by
  have hLines :
      Text.lines
          ("\n".intercalate
            (ts.map fun t => t.record (label t))) =
        ts.flatMap
          (fun t => Text.lines (t.record (label t))) := by
    rw [Text.lines_intercalate, List.flatMap_map]
    intro r hMem
    rcases List.mem_map.mp hMem with ⟨t, -, rfl⟩
    exact t.record_ne_empty (label t)
  have hEach :
      ∀ t ∈ ts,
        (Text.lines (t.record (label t))).length =
          1 + lineFeeds t.text := by
    intro t hMem
    rw [Text.length_lines (t.record_ne_empty _),
      lineFeeds_record (hLabel t hMem), Nat.add_comm]
  have hCount :
      (Text.lines
          ("\n".intercalate
            (ts.map fun t => t.record (label t)))).length =
        ts.length +
          (ts.map (fun t => lineFeeds t.text)).sum := by
    rw [hLines, List.length_flatMap,
      List.map_congr_left hEach, List.sum_map_add,
      List.map_const', List.sum_replicate, Nat.nsmul_eq_mul,
      Nat.mul_one]
  have hAsMany :
      (Text.lines
          ("\n".intercalate
            (ts.map fun t => t.record (label t)))).length =
          ts.length ↔
        ∀ t ∈ ts, '\n' ∉ t.text.toList := by
    rw [hCount, Nat.add_eq_left,
      List.sum_eq_zero_iff_forall_eq_nat]
    simp only [List.forall_mem_map,
      lineFeeds_text_eq_zero_iff]
  refine ⟨hLines, hCount, ?_, hAsMany⟩
  constructor
  · intro hSame
    rw [← hAsMany, hSame, List.length_map]
  · intro hNone
    rw [hLines, List.map_eq_flatMap]
    apply List.flatMap_congr
    intro t hMem
    apply Text.lines_eq_singleton (t.record_ne_empty _)
    rw [← List.count_eq_zero]
    have hFeeds := lineFeeds_record (t := t) (hLabel t hMem)
    rw [lineFeeds_text_eq_zero_iff.mpr (hNone t hMem)]
      at hFeeds
    exact hFeeds

end Token

------------------------------------------------------------
-- Main Result
------------------------------------------------------------

section Shown

variable {source : String}
variable {t : Token}

/- A token that goes over line ends is no other one. -/
theorem Token.string_or_blockComment_of_lineFeed
    (hNone : NoErrors (tokenize source))
    (hMem : t ∈ shownTokens source)
    (hLine : '\n' ∈ t.text.toList) :
    (∃ value, t.kind = .string value) ∨
      (t.kind = .comment ∧
        ['/', '*'] <+: t.text.toList) := by
  have hToken := List.mem_of_mem_filter hMem
  have hText :=
    (Scanner.ofString source).tokenText_of_mem_tokens hToken
      (ne_endOfText_of_mem_shownTokens hMem)
      (hNone t hToken)
  exact hText.string_or_blockComment_of_lineFeed hLine

end Shown

/-
  What is printed of the tokens of a text, by their kinds or
  as highlights, is filled by their records.  It has one
  line for each token and one more for each line feed in a
  token, and so it has just one line for each token only if
  no string and no block comment goes over a line end.
-/
theorem Session.tokens_fill_lines
    {source : String}
    (s : Session)
    (hNone : NoErrors (tokenize source)) :
    (∃ output,
      s.render .tokens source = .ok output ∧
      Token.FillLines (shownTokens source)
        (fun t => t.kind.label) output) ∧
    (∃ output,
      s.render .highlight source = .ok output ∧
      Token.FillLines (shownTokens source)
        (fun t =>
          ((RoleTable.upTo defaultLimit source).shownAs
            t).name)
        output) ∧
    ∀ t ∈ shownTokens source,
      '\n' ∈ t.text.toList →
      (∃ value, t.kind = .string value) ∨
        (t.kind = .comment ∧
          ['/', '*'] <+: t.text.toList) := by
  refine ⟨?_, ?_, ?_⟩
  · refine ⟨_, ?_, Token.fillLines_intercalate ?_⟩
    · rw [render, Token.records_of_noErrors hNone]
      rfl
    · intro t hMem
      apply TokenKind.lineFeed_notMem_label
      · exact ne_endOfText_of_mem_shownTokens hMem
      · exact hNone t (List.mem_of_mem_filter hMem)
  · refine
      ⟨_, s.render_highlight hNone,
        Token.fillLines_intercalate ?_⟩
    intro t _
    exact Capture.lineFeed_notMem_name _
  · intro t hMem hLine
    exact
      Token.string_or_blockComment_of_lineFeed hNone hMem
        hLine

/- A text with one token, which goes over a line end. -/
def brokenComment : String :=
  "/*\n*/"

theorem noErrors_brokenComment :
    NoErrors (tokenize brokenComment) := by
  decide +kernel

theorem Session.tokens_fill_lines_brokenComment :
    NoErrors (tokenize brokenComment) ∧
    ∃ output,
      ready.render .tokens brokenComment = .ok output ∧
      (Text.lines output).length ≠
        (shownTokens brokenComment).length := by
  refine ⟨noErrors_brokenComment, ?_⟩
  rcases ready.tokens_fill_lines noErrors_brokenComment with
    ⟨⟨output, hOutput, hFills⟩, -, -⟩
  refine ⟨output, hOutput, ?_⟩
  intro hSame
  rw [hFills.length_lines_eq_length_iff] at hSame
  revert hSame
  decide +kernel

/- The one token is two lines of both formats. -/
theorem Session.one_token_on_two_lines :
    NoErrors (tokenize brokenComment) ∧
    (shownTokens brokenComment).length = 1 ∧
    (ready.render .tokens brokenComment).map Text.lines =
      .ok ["1:1\tcomment\t/*", "*/"] ∧
    (ready.render .highlight brokenComment).map Text.lines =
      .ok ["1:1\tcomment\t/*", "*/"] := by
  refine ⟨noErrors_brokenComment, ?_, ?_, ?_⟩
  · decide +kernel
  · decide +kernel
  · decide +kernel

end FeSyntax
