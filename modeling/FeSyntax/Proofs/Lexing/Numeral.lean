import FeSyntax.Proofs.Lexing.SelfContained
import FeSyntax.Proofs.Parsing.LeafTokens
import FeSyntax.Proofs.Text.Decimal
import Mathlib.Data.Nat.Digits.Defs

/-
  This file defines numerals, the texts of numbers in their
  parts, and proves that a number token keeps what its text
  denotes.  The value of a numeral is that of its digits as
  positions count, without any bound; a token has this value
  if it is below two to the power of 128.

  Key definitions include:
    * `Radix`
    * `Numeral`
    * `Numeral.text`
    * `Numeral.value`
    * `Numeral.ofValue`

  Key theorems include:
    * `Numeral.value_eq_digitsValue`
    * `Numeral.value_congr`
    * `Numeral.tokenText`
    * `LiteralValue.fitsSuffix_literalValue?`
    * `Numeral.number_tokens_keep_values`
-/

namespace FeSyntax

------------------------------------------------------------
-- Numerals
------------------------------------------------------------

/- How the digits of a number are read. -/
inductive Radix where
  | decimal
  | hexadecimal
deriving DecidableEq, Repr

namespace Radix

/- The number of digits that there are. -/
def base : Radix → Nat
  | decimal => 10
  | hexadecimal => 16

/- What stands in front of the digits. -/
def mark : Radix → List Char
  | decimal => []
  | hexadecimal => ['0', 'x']

/- Whether a character is a digit. -/
def IsDigit : Radix → Char → Prop
  | decimal => Text.IsDigit
  | hexadecimal => Text.IsHexDigit

/- A decimal digit is a digit in either radix. -/
theorem isHexDigit_of_isDigit
    {radix : Radix}
    {c : Char}
    (hDigit : radix.IsDigit c) :
    Text.IsHexDigit c := by
  cases radix with
  | decimal => exact .inl hDigit
  | hexadecimal => exact hDigit

end Radix

/- The text of a number, in its parts. -/
structure Numeral where
  radix : Radix
  digits : List Char
  suffix : Option IntSuffix
  digits_ne_nil : digits ≠ []
  isDigit : ∀ c ∈ digits, radix.IsDigit c

namespace Numeral

/- How a numeral is written. -/
def text
    (m : Numeral) : String :=
  String.ofList
    (m.radix.mark ++
      (m.digits ++ Lexeme.suffixText m.suffix))

/- The place of a digit among all, a letter in any case. -/
def digitRank
    (c : Char) : Nat :=
  "0123456789abcdef".toList.idxOf c.toLower

/-
  The number that the digits denote: each counts as often as
  the base to the power of its position from the right.
-/
def value
    (m : Numeral) : Nat :=
  Nat.ofDigits m.radix.base (m.digits.map digitRank).reverse

------------------------------------------------------------
-- Digits And Values
------------------------------------------------------------

/- Digits are ASCII characters, so there are few of them. -/
theorem digitRank_eq
    {c : Char}
    (hDigit : Text.IsHexDigit c) :
    digitRank c = Text.digitValue c := by
  have hAll :
      ∀ n < 128,
        Text.IsHexDigit (Char.ofNat n) →
          digitRank (Char.ofNat n) =
            Text.digitValue (Char.ofNat n) := by
    decide +kernel
  have hBelow : c.toNat < 128 := by
    have hLast : 'f'.toNat < 128 := by decide
    have hLe : c ≤ 'f' := by
      rcases hDigit with ⟨-, hNine⟩ | ⟨-, hLow⟩ | ⟨-, hHigh⟩
      · exact Char.le_trans hNine (by decide)
      · exact hLow
      · exact Char.le_trans hHigh (by decide)
    exact Nat.lt_of_le_of_lt
      (UInt32.le_iff_toNat_le.mp hLe) hLast
  have hSame := hAll c.toNat hBelow
  rw [Char.ofNat_toNat] at hSame
  exact hSame hDigit

/- Reading digits from the left counts their positions. -/
theorem digitsValue_eq_ofDigits
    (radix : Nat)
    (digits : List Char) :
    Text.digitsValue radix digits =
      Nat.ofDigits radix
        (digits.map Text.digitValue).reverse := by
  rw [Nat.ofDigits_eq_foldr, List.foldr_reverse,
    List.foldl_map, Text.digitsValue]
  refine List.foldl_ext _ _ _ fun n c _ => ?_
  rw [Nat.cast_id, Nat.add_comm, Nat.mul_comm]

theorem value_eq_digitsValue
    (m : Numeral) :
    m.value = Text.digitsValue m.radix.base m.digits := by
  have hRanks :
      m.digits.map digitRank =
        m.digits.map Text.digitValue := by
    refine List.map_congr_left fun c hMem => digitRank_eq ?_
    exact Radix.isHexDigit_of_isDigit (m.isDigit c hMem)
  rw [value, hRanks, digitsValue_eq_ofDigits]

/- Zeros in front denote nothing. -/
theorem ofDigits_dropWhile_zero
    (base : Nat)
    (digits : List Char) :
    Nat.ofDigits base
        ((digits.dropWhile (· = '0')).map
          digitRank).reverse =
      Nat.ofDigits base (digits.map digitRank).reverse := by
  induction digits with
  | nil => rfl
  | cons c digits ih =>
      by_cases hZero : c = '0'
      · have hRank : digitRank c = 0 := by
          rw [hZero]
          decide
        rw [List.dropWhile_cons_of_pos (by simpa using hZero),
          ih, List.map_cons, hRank,
          Nat.ofDigits_reverse_zero_cons]
      · rw [List.dropWhile_cons_of_neg (by simpa using hZero)]

/-
  Neither zeros in front nor the case of letters make a
  difference.
-/
theorem value_congr
    {m m' : Numeral}
    (hRadix : m.radix = m'.radix)
    (hDigits :
      (m.digits.dropWhile (· = '0')).map Char.toLower =
        (m'.digits.dropWhile (· = '0')).map
          Char.toLower) :
    m.value = m'.value := by
  have hRank :
      digitRank =
        (fun c => "0123456789abcdef".toList.idxOf c) ∘
          Char.toLower :=
    rfl
  rw [value, value, ← ofDigits_dropWhile_zero,
    ← ofDigits_dropWhile_zero m'.radix.base, hRadix, hRank,
    ← List.map_map, ← List.map_map, hDigits]

------------------------------------------------------------
-- Numerals And Tokens
------------------------------------------------------------

/- A numeral is the text of a number token. -/
theorem tokenText
    (m : Numeral) :
    Lexeme.TokenText m.text.toList
      (.number (Lexeme.literalValue? m.value) m.suffix) := by
  rw [m.value_eq_digitsValue, text, String.toList_ofList]
  rcases m with ⟨radix, digits, suffix, hSome, hDigits⟩
  cases radix with
  | decimal => exact .decimal suffix hSome hDigits
  | hexadecimal => exact .hexadecimal suffix hSome hDigits

/- And every text of a number token is a numeral. -/
theorem exists_toList_text
    {text : List Char}
    {kind : TokenKind}
    {value : Option Nat}
    {suffix : Option IntSuffix}
    (hText : Lexeme.TokenText text kind)
    (hKind : kind = .number value suffix) :
    ∃ m : Numeral, m.text.toList = text := by
  cases hText with
  | decimal suffix hSome hDigits =>
      exact
        ⟨⟨.decimal, _, suffix, hSome, hDigits⟩,
          String.toList_ofList⟩
  | hexadecimal suffix hSome hDigits =>
      exact
        ⟨⟨.hexadecimal, _, suffix, hSome, hDigits⟩,
          String.toList_ofList⟩
  | word _ _ => exact absurd hKind (TokenKind.ofWord_ne rfl _)
  | _ => cases hKind

/- The numeral with the decimal digits of a number. -/
def ofValue
    (n : Nat)
    (suffix : Option IntSuffix) : Numeral where
  radix := .decimal
  digits := Nat.toDigits 10 n
  suffix := suffix
  digits_ne_nil := Nat.toDigits_ne_nil
  isDigit _ := Text.isDigit_of_mem_toDigits

theorem value_ofValue
    (n : Nat)
    (suffix : Option IntSuffix) :
    (ofValue n suffix).value = n := by
  rw [value_eq_digitsValue]
  exact Text.digitsValue_toDigits n

/- Messages show a number as such a numeral. -/
theorem text_ofValue
    (n : Nat)
    (suffix : Option IntSuffix) :
    (ofValue n suffix).text =
      (TokenKind.number (some n) suffix).display := by
  rw [← String.toList_inj, text, String.toList_ofList]
  cases suffix with
  | none =>
      rw [TokenKind.display, Text.toList_toString]
      exact List.append_nil _
  | some s =>
      rw [TokenKind.display, String.toList_append,
        Text.toList_toString]
      rfl

/- What is shown for a value is one number token. -/
theorem exists_tokenize_display
    {n : Nat}
    (hKept : Lexeme.literalValue? n = some n)
    (suffix : Option IntSuffix) :
    let kind := TokenKind.number (some n) suffix
    ∃ stop,
      tokenize kind.display =
        [⟨kind, kind.display, .between .start stop⟩,
          Scanner.endToken stop] := by
  have hText := (ofValue n suffix).tokenText
  rw [text_ofValue, value_ofValue, hKept] at hText
  exact ⟨_, tokenize_of_tokenText hText⟩

end Numeral

------------------------------------------------------------
-- Suffixes And Values
------------------------------------------------------------

/- A value that a literal has is one that it keeps. -/
theorem Lexeme.literalValue?_of_eq_some
    {n k : Nat}
    (hSome : literalValue? n = some k) :
    literalValue? k = some k := by
  rw [literalValue?] at hSome
  split at hSome
  · next hBelow =>
      cases hSome
      exact if_pos hBelow
  · cases hSome

/- A value that is kept fits in the widest suffix. -/
theorem LiteralValue.fitsSuffix_literalValue?
    (n : Nat)
    (suffix : Option IntSuffix) :
    (number (Lexeme.literalValue? n) suffix).FitsSuffix ↔
      ∀ s, suffix = some s → n < 2 ^ s.bits := by
  cases suffix with
  | none => simp [FitsSuffix]
  | some s =>
      have hWidest : 2 ^ s.bits ≤ 2 ^ 128 := by
        refine Nat.pow_le_pow_right (by decide) ?_
        cases s <;> decide
      have hSome :
          (∀ s', some s = some s' → n < 2 ^ s'.bits) ↔
            n < 2 ^ s.bits := by
        simp
      rw [hSome, Lexeme.literalValue?]
      by_cases hKept : n < Nat.pow 2 128
      · rw [if_pos hKept]
        exact Iff.rfl
      · rw [if_neg hKept]
        refine iff_of_false id fun hFits => hKept ?_
        exact Nat.lt_of_lt_of_le hFits hWidest

------------------------------------------------------------
-- Number Tokens
------------------------------------------------------------

section Tokens

variable {source : String}
variable {t : Token}
variable {value : Option Nat}
variable {suffix : Option IntSuffix}

/- A leaf that is a number is a literal. -/
theorem Node.eq_literal_of_leafKind?
    {n : Node}
    (hLeaf : n.leafKind? = some (.number value suffix)) :
    ∃ span, n = .literal ⟨.number value suffix, span⟩ := by
  cases n with
  | literal l =>
      rcases l with ⟨read, span⟩
      cases read with
      | number n s =>
          cases hLeaf
          exact ⟨span, rfl⟩
      | _ => cases hLeaf
  | identifier i =>
      exact absurd (Option.some.inj hLeaf)
        (TokenKind.ofWord_ne rfl _)
  | ty t => cases t <;> cases hLeaf
  | pattern p => cases p <;> cases hLeaf
  | _ => cases hLeaf

variable (hKind : t.kind = .number value suffix)

include hKind

/- A number is no error and not the end. -/
theorem tokenText_of_number
    (hMem : t ∈ tokenize source) :
    Lexeme.TokenText t.text.toList t.kind :=
  (Scanner.ofString source).tokenText_of_mem_tokens hMem
    (by simp [hKind]) (by simp [hKind])

/- The text of the token is a numeral. -/
theorem Numeral.exists_text_eq
    (hMem : t ∈ tokenize source) :
    ∃ m : Numeral, m.text = t.text := by
  have hText := tokenText_of_number hKind hMem
  rcases exists_toList_text hText hKind with ⟨m, hSame⟩
  exact ⟨m, String.toList_injective hSame⟩

/- The numeral settles what the token has. -/
theorem Numeral.parts_eq_of_text_eq
    {m : Numeral}
    (hMem : t ∈ tokenize source)
    (hSame : m.text = t.text) :
    value = Lexeme.literalValue? m.value ∧
      suffix = m.suffix := by
  have hOwn := m.tokenText
  rw [hSame] at hOwn
  have hKinds :=
    (tokenText_of_number hKind hMem).kind_unique hOwn
  rw [hKind] at hKinds
  exact TokenKind.number.inj hKinds

/- Where a literal is read, the token is one. -/
theorem Parser.literal_of_number
    (what : Expectation)
    (rest : List Token) :
    literal what (t :: rest) =
      .done ⟨.number value suffix, t.span⟩ rest := by
  simp only [literal, bind_eq_done, pure_eq_done,
    Prod.exists, accept_eq_done]
  exact
    ⟨.number value suffix, t.span, rest,
      ⟨t, rfl, by rw [hKind]; rfl, rfl⟩, rfl, rfl⟩

/- In a parsed file it is this literal and no other. -/
theorem SourceFile.literals_of_number
    {limit : Nat}
    {f : SourceFile}
    (hMem : t ∈ tokenize source)
    (hParse : parse source limit = .ok f) :
    Node.literal ⟨.number value suffix, t.span⟩ ∈ f.nodes ∧
      ∀ l, Node.literal l ∈ f.nodes → l.span = t.span →
        l.value = .number value suffix := by
  have hSignificant : t ∈ significantTokens source := by
    refine List.mem_filter.mpr ⟨hMem, ?_⟩
    simp [Token.IsSignificant, hKind]
  constructor
  · have hFrame : t.kind.isFrame = false := by
      rw [hKind]
      rfl
    rcases exists_leaf_of_token hParse hSignificant hFrame
      with ⟨n, hNode, hSpan, hLeaf⟩
    rw [hKind] at hLeaf
    rcases Node.eq_literal_of_leafKind? hLeaf with
      ⟨span, rfl⟩
    cases hSpan
    exact hNode
  · intro l hNode hSpan
    have hOwn :=
      (span_eq_and_kind_eq_of_leaf hParse hNode rfl
        hSignificant (congrArg Span.start hSpan)).2
    have hLeaf :
        (Node.literal l).leafKind? =
          some (.number value suffix) := by
      rw [← hKind, hOwn]
      rfl
    rcases Node.eq_literal_of_leafKind? hLeaf with
      ⟨span, hLiteral⟩
    cases hLiteral
    rfl

/-
  The value of a numeral depends neither on zeros in front
  nor on the case of letters.  The text of a number token is
  a numeral.  The token has the value of the numeral if that
  is below two to the power of 128, or else none, and it has
  the suffix.  Where a literal is read it is one with these,
  as it is in a parsed file, and it fits if there is no
  suffix or the value needs no more bits.  A value is shown
  as a text that is one number token, with that value and
  suffix.
-/
theorem number_tokens_keep_values
    (hMem : t ∈ tokenize source) :
    (∀ m m' : Numeral,
      m.radix = m'.radix →
      (m.digits.dropWhile (· = '0')).map Char.toLower =
        (m'.digits.dropWhile (· = '0')).map Char.toLower →
      m.value = m'.value) ∧
    (∃ m : Numeral, m.text = t.text) ∧
    (∀ m : Numeral, m.text = t.text →
      value =
        (if m.value < 2 ^ 128 then some m.value else none) ∧
      suffix = m.suffix ∧
      ((LiteralValue.number value suffix).FitsSuffix ↔
        (m.suffix = some .u8 → m.value < 2 ^ 8) ∧
        (m.suffix = some .u64 → m.value < 2 ^ 64) ∧
        (m.suffix = some .u128 → m.value < 2 ^ 128))) ∧
    (∀ what rest,
      Parser.literal what (t :: rest) =
        .done ⟨.number value suffix, t.span⟩ rest) ∧
    (∀ limit f, SourceFile.parse source limit = .ok f →
      Node.literal ⟨.number value suffix, t.span⟩ ∈
        f.nodes ∧
      ∀ l, Node.literal l ∈ f.nodes → l.span = t.span →
        l.value = .number value suffix) ∧
    ∀ n, value = some n →
      ∃ stop,
        tokenize t.kind.display =
          [⟨.number (some n) suffix, t.kind.display,
              .between .start stop⟩,
            Scanner.endToken stop] := by
  rcases Numeral.exists_text_eq hKind hMem with ⟨own, hOwn⟩
  refine
    ⟨fun _ _ => Numeral.value_congr, ⟨own, hOwn⟩,
      fun m hSame => ?_, Parser.literal_of_number hKind,
      fun _ _ hParse =>
        SourceFile.literals_of_number hKind hMem hParse,
      fun n hValue => ?_⟩
  · rcases Numeral.parts_eq_of_text_eq hKind hMem hSame with
      ⟨rfl, rfl⟩
    refine ⟨rfl, rfl, ?_⟩
    rw [LiteralValue.fitsSuffix_literalValue?]
    cases m.suffix with
    | none => simp
    | some s => cases s <;> simp [IntSuffix.bits]
  · have hParts :=
      Numeral.parts_eq_of_text_eq hKind hMem hOwn
    rw [hValue] at hKind hParts
    rw [hKind]
    exact Numeral.exists_tokenize_display
      (Lexeme.literalValue?_of_eq_some hParts.1.symm) suffix

end Tokens

/- A byte with zeros in front that is no byte. -/
def wideByte : String :=
  "const x: u8 = 0x00FfFu8;"

theorem number_tokens_keep_values_wideByte :
    ∃ t ∈ tokenize wideByte,
      t.kind = .number (some 4095) (some .u8) ∧
      (∃ m : Numeral, m.text = t.text ∧ m.value = 4095) ∧
      ¬ (LiteralValue.number (some 4095)
        (some .u8)).FitsSuffix ∧
      ∃ stop,
        tokenize "4095u8" =
          [⟨.number (some 4095) (some .u8), "4095u8",
              .between .start stop⟩,
            Scanner.endToken stop] := by
  let t : Token :=
    ⟨.number (some 4095) (some .u8), "0x00FfFu8",
      ⟨14, 23, 1, 15⟩⟩
  have hMem : t ∈ tokenize wideByte := by
    decide +kernel
  rcases number_tokens_keep_values
      (rfl : t.kind = .number (some 4095) (some .u8)) hMem
    with ⟨-, ⟨m, hText⟩, hParts, -, -, hShown⟩
  rcases hParts m hText with ⟨hValue, hSuffix, hFits⟩
  have hNumber : m.value = 4095 := by
    split at hValue
    · exact (Option.some.inj hValue).symm
    · cases hValue
  refine
    ⟨t, hMem, rfl, ⟨m, hText, hNumber⟩, fun hFit => ?_,
      hShown 4095 rfl⟩
  have hBelow := (hFits.mp hFit).1 hSuffix.symm
  rw [hNumber] at hBelow
  exact absurd hBelow (by decide)

end FeSyntax
