import FeSyntax.Proofs.Highlighting.Roles
import Mathlib.Data.List.Basic

/-
  This file proves what is printed of highlights: a page
  with one record for each token, which shows the token as a
  table of roles does.  No name of a capture holds a tab, so
  the captures can be read off a page again, and two tables
  give one page only if they show every token alike.  The
  table of a file shows no more than the kinds of tokens do
  just if the file is plain.

  Key definitions include:
    * `Token.byKind`
    * `RoleTable.upTo`
    * `RoleTable.shownAs`
    * `RoleTable.page`
    * `SourceFile.IsPlain`

  Key theorems include:
    * `Session.render_highlight`
    * `Token.record_append_inj`
    * `RoleTable.page_eq_iff`
    * `SourceFile.isPlain_iff`
-/

namespace FeSyntax

------------------------------------------------------------
-- Pages
------------------------------------------------------------

/- What a token is shown as where nothing marks it. -/
def Token.byKind
    (t : Token) : Capture :=
  t.kind.capture?.getD .anyName

namespace RoleTable

/-
  The table of a text under a nesting limit, empty if the
  text does not parse under it.
-/
def upTo
    (limit : Nat)
    (source : String) : RoleTable :=
  match SourceFile.parse source limit with
  | .ok f => ofFile f
  | .error _ => ∅

/- What a token is shown as: by its mark, or by its kind. -/
def shownAs
    (table : RoleTable)
    (t : Token) : Capture :=
  table.captureOf t t.byKind

/- The records of the tokens of a text, as a table shows. -/
def page
    (table : RoleTable)
    (source : String) : String :=
  "\n".intercalate
    ((shownTokens source).map fun t =>
      t.record (table.shownAs t).name)

/- The empty table shows tokens by their kinds alone. -/
theorem shownAs_empty
    (t : Token) :
    (∅ : RoleTable).shownAs t = t.byKind :=
  captureOf_empty t t.byKind

/- Without roles, each token is shown by its kind. -/
theorem page_empty
    (source : String) :
    (∅ : RoleTable).page source =
      "\n".intercalate
        ((shownTokens source).map fun t =>
          t.record t.byKind.name) := by
  simp only [page, shownAs_empty]

section Limits

variable {source : String}
variable {limit : Nat}

/- A text that is parsed is shown with its roles. -/
theorem upTo_of_ok
    {f : SourceFile}
    (hParse : SourceFile.parse source limit = .ok f) :
    upTo limit source = ofFile f := by
  delta upTo
  rw [hParse]

/- A text that is not parsed is shown without roles. -/
theorem upTo_of_error
    {e : SyntaxError}
    (hParse : SourceFile.parse source limit = .error e) :
    upTo limit source = ∅ := by
  delta upTo
  rw [hParse]

end Limits

/- The roles of a text are those under the default limit. -/
theorem ofString_eq_upTo
    (source : String) :
    ofString source = upTo defaultLimit source := by
  cases hParse : SourceFile.parse source defaultLimit with
  | ok f =>
      rw [ofString_of_ok hParse, upTo_of_ok hParse]
  | error e =>
      rw [ofString_of_error hParse, upTo_of_error hParse]

end RoleTable

/-
  What is highlighted is printed as the page of one table,
  whatever the session.
-/
theorem Session.render_highlight
    {source : String}
    (hNone : NoErrors (tokenize source))
    (s : Session) :
    s.render .highlight source =
      .ok
        ((RoleTable.upTo defaultLimit source).page
          source) := by
  rcases exists_highlight_of_noErrors hNone with
    ⟨highlights, hOk, hTokens, -⟩
  have hTable := hOk
  rw [highlight, RoleTable.ofString_eq_upTo] at hTable
  have hRecord :
      ∀ h ∈ highlights,
        h.record =
          h.token.record
            ((RoleTable.upTo defaultLimit source).shownAs
              h.token).name := by
    intro h hMem
    rcases RoleTable.capture_of_mem hTable hMem with
      ⟨-, byKind, hKind, hCapture⟩
    have hByKind : h.token.byKind = byKind := by
      rw [Token.byKind, hKind, Option.getD_some]
    rw [Highlight.record, hCapture, RoleTable.shownAs,
      hByKind]
  have hRecords :
      highlights.map Highlight.record =
        (highlights.map Highlight.token).map fun t =>
          t.record
            ((RoleTable.upTo defaultLimit source).shownAs
              t).name := by
    rw [List.map_map]
    exact List.map_congr_left hRecord
  rw [hTokens] at hRecords
  simp only [render, hOk, hRecords, RoleTable.page]

------------------------------------------------------------
-- Records With Captures
------------------------------------------------------------

namespace Capture

/- All captures. -/
def all : List Capture :=
  [.keyword, .typeBuiltin, .boolean, .number, .string,
    .comment, .bracket, .delimiter, .operator, .function,
    .type, .module, .parameter, .property, .constant,
    .anyName]

/- The capture with a name. -/
def ofName?
    (name : String) : Option Capture :=
  all.find? (fun c => c.name = name)

theorem ofName?_name
    (c : Capture) :
    ofName? c.name = some c := by
  cases c <;> decide +kernel

/- Different captures have different names. -/
theorem name_injective :
    Function.Injective name := by
  intro a b hSame
  have hCapture := ofName?_name a
  rw [hSame, ofName?_name] at hCapture
  exact (Option.some.inj hCapture).symm

/- No name of a capture has a tab, so it ends at one. -/
theorem tab_notMem_name
    (c : Capture) :
    '\t' ∉ c.name.toList := by
  cases c <;> decide

end Capture

/- What stands in front of the first separator is unique. -/
theorem front_eq_of_append_cons_eq
    {α : Type}
    {c : α}
    {xs ys us vs : List α}
    (hFirst : c ∉ xs)
    (hSecond : c ∉ ys)
    (hSame : xs ++ c :: us = ys ++ c :: vs) :
    xs = ys ∧ us = vs := by
  induction xs generalizing ys with
  | nil =>
      cases ys with
      | nil => exact ⟨rfl, (List.cons.inj hSame).2⟩
      | cons y ys =>
          rcases List.cons.inj hSame with ⟨rfl, -⟩
          exact absurd (.head _) hSecond
  | cons x xs ih =>
      cases ys with
      | nil =>
          rcases List.cons.inj hSame with ⟨rfl, -⟩
          exact absurd (.head _) hFirst
      | cons y ys =>
          rcases List.cons.inj hSame with ⟨rfl, hRest⟩
          rcases ih (fun hMem => hFirst (.tail _ hMem))
              (fun hMem => hSecond (.tail _ hMem)) hRest with
            ⟨rfl, rfl⟩
          exact ⟨rfl, rfl⟩

namespace Token

variable {t : Token}
variable {a b : Capture}

theorem toList_record
    (t : Token)
    (label : String) :
    (t.record label).toList =
      (SyntaxError.placeText t.span.line
          t.span.column).toList ++
        '\t' ::
          (label.toList ++ '\t' :: t.text.toList) := by
  simp [record]

/- A record shows its capture, whatever follows. -/
theorem record_append_inj
    {x y : List Char}
    (hSame :
      (t.record a.name).toList ++ x =
        (t.record b.name).toList ++ y) :
    a = b ∧ x = y := by
  simp only [toList_record, List.append_assoc,
    List.cons_append] at hSame
  have hBehind :=
    (List.cons.inj (List.append_cancel_left hSame)).2
  rcases front_eq_of_append_cons_eq a.tab_notMem_name
      b.tab_notMem_name hBehind with
    ⟨hName, hText⟩
  exact
    ⟨Capture.name_injective (String.toList_inj.mp hName),
      List.append_cancel_left hText⟩

/- Records of one token with different captures differ. -/
theorem record_inj
    (hSame : t.record a.name = t.record b.name) :
    a = b := by
  have hChars :
      (t.record a.name).toList ++ [] =
        (t.record b.name).toList ++ [] := by
    rw [hSame]
  exact (record_append_inj hChars).1

/- So do records in turn, one line for each of them. -/
theorem records_inj
    {ts : List Token}
    {first second : Token → Capture}
    (hSame :
      "\n".intercalate
          (ts.map fun t => t.record (first t).name) =
        "\n".intercalate
          (ts.map fun t => t.record (second t).name)) :
    ∀ t ∈ ts, first t = second t := by
  induction ts with
  | nil => exact fun t hMem => nomatch hMem
  | cons t ts ih =>
      cases ts with
      | nil =>
          simp only [List.map_cons, List.map_nil,
            String.intercalate_singleton] at hSame
          exact List.forall_mem_singleton.mpr
            (record_inj hSame)
      | cons u ts =>
          simp only [List.map_cons,
            String.intercalate_cons_cons,
            String.append_assoc] at hSame
          have hChars := congrArg String.toList hSame
          simp only [String.toList_append] at hChars
          rcases record_append_inj hChars with
            ⟨hFirst, hBehind⟩
          have hLater :=
            String.toList_inj.mp
              (List.append_cancel_left hBehind)
          exact List.forall_mem_cons.mpr
            ⟨hFirst, ih hLater⟩

end Token

/- Tables give one page if they show every token alike. -/
theorem RoleTable.page_eq_iff
    {first second : RoleTable}
    {source : String} :
    first.page source = second.page source ↔
      ∀ t ∈ shownTokens source,
        first.shownAs t = second.shownAs t := by
  constructor
  · exact Token.records_inj
  · intro hAlike
    refine congrArg ("\n".intercalate ·) ?_
    refine List.map_congr_left fun t hMem => ?_
    rw [hAlike t hMem]

------------------------------------------------------------
-- Files Shown By Kinds Alone
------------------------------------------------------------

/- A capture that only a syntax tree can give. -/
def Capture.isRole : Capture → Bool
  | function | type | module | parameter | property
  | constant => true
  | _ => false

/- What the kind of a token shows is no role. -/
theorem Token.isRole_byKind
    (t : Token) :
    t.byKind.isRole = false := by
  rw [byKind]
  cases t.kind with
  | punct p =>
      rw [TokenKind.capture?, Option.getD_some,
        Punct.capture]
      split <;> rfl
  | _ => rfl

theorem Token.capture?_of_word
    {t : Token}
    {word : String}
    (hWord : t.kind.word? = some word) :
    t.kind.capture? = some t.byKind := by
  rw [byKind]
  cases hKind : t.kind with
  | error cause =>
      rw [hKind] at hWord
      cases hWord
  | endOfText =>
      rw [hKind] at hWord
      cases hWord
  | _ => rfl

/- Only an identifier is shown as a name by its kind. -/
theorem Token.kind_of_byKind
    {t : Token}
    {word : String}
    (hWord : t.kind.word? = some word)
    (hName : t.byKind = .anyName) :
    t.kind = .identifier word := by
  have hCapture := capture?_of_word hWord
  rw [hName] at hCapture
  cases hKind : t.kind with
  | identifier name =>
      rw [hKind] at hWord
      rw [Option.some.inj hWord]
  | punct p =>
      rw [hKind] at hWord
      cases hWord
  | _ =>
      rw [hKind] at hCapture
      cases hCapture

namespace SourceFile

variable {source : String}
variable {limit : Nat}
variable {f : SourceFile}
variable {i : Identifier}

/- What a name stands for is shown by a role. -/
theorem HasRole.isRole
    {c : Capture}
    (hRole : f.HasRole i c) :
    c.isRole = true := by
  cases hRole <;> rfl

/-
  A file without roles, in which all names are identifiers:
  none of them is written like a keyword.
-/
def IsPlain
    (f : SourceFile) : Prop :=
  ∀ i, f.Has (.identifier i) →
    (∀ c, ¬ f.HasRole i c) ∧
      TokenKind.ofWord i.name = .identifier i.name

/- Every name is a word that is shown. -/
theorem exists_shownToken
    (hParse : SourceFile.parse source limit = .ok f)
    (hHas : f.Has (.identifier i)) :
    ∃ t ∈ shownTokens source,
      t.span = i.span ∧ t.kind = .ofWord i.name := by
  rcases exists_leafToken hParse (mem_nodes_iff.mpr hHas)
      rfl with
    ⟨t, hMem, hSpan, hKind⟩
  have hWord := TokenKind.word?_ofWord i.name
  rw [← hKind] at hWord
  refine ⟨t, List.mem_filter.mpr ⟨?_, ?_⟩, hSpan, hKind⟩
  · exact (mem_tokenize_of_mem_significantTokens hMem).1
  · rw [decide_eq_true_eq]
    intro hEnd
    rw [hEnd] at hWord
    cases hWord

/- A file that is plain is just what the kinds show. -/
theorem isPlain_iff
    (hParse : SourceFile.parse source limit = .ok f) :
    f.IsPlain ↔
      ∀ t ∈ shownTokens source,
        (RoleTable.ofFile f).shownAs t = t.byKind := by
  constructor
  · intro hPlain t hMem
    have hToken := List.mem_of_mem_filter hMem
    cases hWord : t.kind.word? with
    | none => exact RoleTable.captureOf_of_no_word _ hWord _
    | some word =>
        by_cases hName :
            ∃ i, f.Has (.identifier i) ∧ i.span = t.span
        · rcases hName with ⟨i, hHas, hSpan⟩
          rcases hPlain i hHas with ⟨hNone, hKind⟩
          have hLeaf :=
            span_eq_and_kind_eq_of_leaf hParse
              (mem_nodes_iff.mpr hHas) rfl
              (mem_significantTokens_of_word hToken hWord)
              (congrArg Span.start hSpan)
          have hByKind : t.byKind = .anyName := by
            rw [Token.byKind, hLeaf.2, hKind]
            rfl
          rw [RoleTable.shownAs, hByKind]
          exact captureOf_of_means hParse hToken hWord
            (hByKind ▸ Token.capture?_of_word hWord)
            ⟨i, hHas, hSpan, hNone⟩
        · exact captureOf_of_no_name hParse hToken hWord
            fun i hHas hSpan => hName ⟨i, hHas, hSpan⟩
  · intro hAlike i hHas
    rcases exists_shownToken hParse hHas with
      ⟨t, hMem, hSpan, hKind⟩
    have hWord : t.kind.word? = some i.name := by
      rw [hKind, TokenKind.word?_ofWord]
    -- What the name means is what its kind shows.
    have hMeans
        {c : Capture}
        (hMeans : f.Means t c) :
        t.byKind = c :=
      (hAlike t hMem).symm.trans
        (captureOf_of_means hParse
          (List.mem_of_mem_filter hMem) hWord
          (Token.capture?_of_word hWord) hMeans)
    have hNone : ∀ c, ¬ f.HasRole i c := by
      intro c hRole
      have hShown :=
        hMeans (means_of_hasRole hRole hSpan.symm)
      have hIsRole := hRole.isRole
      rw [← hShown, t.isRole_byKind] at hIsRole
      cases hIsRole
    refine ⟨hNone, ?_⟩
    rw [← hKind]
    exact Token.kind_of_byKind hWord
      (hMeans ⟨i, hHas, hSpan.symm, hNone⟩)

end SourceFile

end FeSyntax
