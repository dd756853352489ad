import FeSyntax.Proofs.Decoding.Ty

/-
  This file defines decoders for expressions and what they
  contain, and proves that they give back what was encoded.
  Expressions, blocks, statements and arms contain one
  another, so their decoders share one that is given for the
  expressions that are less deeply nested.

  Key definitions include:
    * `Expression.ReadsBelow`
    * `Expression.decode?`
    * `Block.decode?`

  Key theorems include:
    * `Expression.decodeStep?_encode`
    * `Expression.decode?_encode`
    * `Expression.encode_written`
    * `Block.decode?_of_hasFields`
-/

namespace FeSyntax

open Json (at? items? optional?)

------------------------------------------------------------
-- Fields
------------------------------------------------------------

/- The fields of an expression, with its tag. -/
def Expression.jsonFields : Expression → JsonFields
  | .literal l => tag "literal" :: l.jsonFields
  | .path p => tag "path" :: p.jsonFields
  | .block b => tag "block" :: b.jsonFields
  | .matching m => tag "match" :: m.jsonFields

/- The fields of a statement, with its tag. -/
def Statement.jsonFields : Statement → JsonFields
  | .binding b => tag "let" :: b.jsonFields
  | .expression value span =>
      [ tag "expression",
        ("expr", value.encode),
        ("span", span.encode) ]

/- The fields of an arm. -/
def MatchArm.jsonFields
    (a : MatchArm) : JsonFields :=
  [ ("pattern", a.pattern.encode),
    ("value", a.value.encode),
    ("span", a.span.encode) ]

/-
  The document of an expression is the record of its fields.
-/
theorem Expression.encode_eq_record
    (e : Expression) :
    e.encode = .record e.jsonFields := by
  cases e <;> rw [encode, jsonFields]

/- So is that of a statement, whichever form it has. -/
theorem Statement.encode_eq_record
    (s : Statement) :
    s.encode = .record s.jsonFields := by
  cases s <;> rw [encode, jsonFields]

/-
  An arm is a record of its pattern, its body and its span.
-/
theorem MatchArm.encode_eq_record
    (a : MatchArm) :
    a.encode = .record a.jsonFields := by
  cases a
  rw [encode, jsonFields]

/-
  The documents of a list are those of its statements in
  turn.
-/
theorem Block.encodeStatements_eq
    (ss : List Statement) :
    encodeStatements ss = ss.map Statement.encode := by
  induction ss with
  | nil => rw [encodeStatements, List.map_nil]
  | cons s ss ih => rw [encodeStatements, ih, List.map_cons]

/- The documents of a list are those of its arms in turn. -/
theorem Match.encodeArms_eq
    (arms : List MatchArm) :
    encodeArms arms = arms.map MatchArm.encode := by
  induction arms with
  | nil => rw [encodeArms, List.map_nil]
  | cons a arms ih => rw [encodeArms, ih, List.map_cons]

/- A missing expression is written as null. -/
theorem Expression.encodeOption_eq
    (x : Option Expression) :
    encodeOption x = .ofOption (x.map encode) := by
  cases x with
  | none => rw [encodeOption, Option.map_none]; rfl
  | some e => rw [encodeOption, Option.map_some]; rfl

/- No expression is mistaken for a missing one. -/
@[simp] theorem Expression.encode_ne_null
    (e : Expression) :
    e.encode ≠ .null := by
  rw [encode_eq_record]
  nofun

/-
  No two fields of an expression have one key, so all of
  them are found.
-/
theorem Expression.hasFields_encode
    (e : Expression) :
    e.encode.HasFields e.jsonFields := by
  rw [encode_eq_record]
  apply Json.hasFields_record
  cases e with
  | literal l => simp [jsonFields, tag, Literal.jsonFields]
  | path p => simp [jsonFields, tag, Path.jsonFields]
  | block b =>
      cases b
      simp [jsonFields, tag, Block.jsonFields]
  | matching m =>
      cases m
      simp [jsonFields, tag, Match.jsonFields]

theorem Statement.hasFields_encode
    (s : Statement) :
    s.encode.HasFields s.jsonFields := by
  rw [encode_eq_record]
  apply Json.hasFields_record
  cases s with
  | binding b =>
      cases b
      simp [jsonFields, tag, LetBinding.jsonFields]
  | expression value span => simp [jsonFields, tag]

theorem MatchArm.hasFields_encode
    (a : MatchArm) :
    a.encode.HasFields a.jsonFields := by
  rw [encode_eq_record]
  exact Json.hasFields_record (by simp [jsonFields])

------------------------------------------------------------
-- Decoders
------------------------------------------------------------

section Decoders

variable (expression? : Json → Option Expression)
variable (j : Json)

/- The arm that a document stands for. -/
def MatchArm.decodeWith? : Option MatchArm := do
  let pattern ← j.at? "pattern" Pattern.decode?
  let value ← j.at? "value" expression?
  let span ← j.at? "span" Span.decode?
  pure ⟨pattern, value, span⟩

/- The choice that a document stands for. -/
def Match.decodeWith? : Option Match := do
  let value ← j.at? "value" expression?
  let arms ←
    j.at? "arms" (items? (MatchArm.decodeWith? expression?))
  let span ← j.at? "span" Span.decode?
  pure ⟨value, arms, span⟩

/- The binding that a document stands for. -/
def LetBinding.decodeWith? : Option LetBinding := do
  let isMut ← j.at? "is_mut" Json.toBool?
  let name ← j.at? "name" Identifier.decode?
  let ty ← j.at? "ty" (optional? Ty.decode?)
  let value ← j.at? "value" (optional? expression?)
  let span ← j.at? "span" Span.decode?
  pure ⟨isMut, name, ty, value, span⟩

/- The statement that a document stands for. -/
def Statement.decodeWith? : Option Statement := do
  match ← j.at? "statement" Json.toText? with
  | "let" =>
      (LetBinding.decodeWith? expression? j).map .binding
  | "expression" =>
      let value ← j.at? "expr" expression?
      let span ← j.at? "span" Span.decode?
      pure (.expression value span)
  | _ => none

/- The block that a document stands for. -/
def Block.decodeWith? : Option Block := do
  let statements ←
    j.at? "statements"
      (items? (Statement.decodeWith? expression?))
  let tail ← j.at? "tail" (optional? expression?)
  let span ← j.at? "span" Span.decode?
  pure ⟨statements, tail, span⟩

/-
  The expression that a document stands for, its parts being
  decoded by `expression?`.
-/
def Expression.decodeStep? : Option Expression := do
  match ← j.at? "expression" Json.toText? with
  | "literal" => (Literal.decode? j).map .literal
  | "path" => (Path.decode? j).map .path
  | "block" => (Block.decodeWith? expression? j).map .block
  | "match" =>
      (Match.decodeWith? expression? j).map .matching
  | _ => none

end Decoders

/- The expression that a document stands for. -/
def Expression.decode? : Json → Option Expression :=
  Json.nested? Expression.decodeStep?

/- The block that a document stands for. -/
def Block.decode? : Json → Option Block :=
  Block.decodeWith? Expression.decode?

------------------------------------------------------------
-- What Was Encoded
------------------------------------------------------------

/-
  Expressions are given back if they are less deeply nested
  than a bound.
-/
def Expression.ReadsBelow
    (expression? : Json → Option Expression)
    (bound : Nat) : Prop :=
  ∀ e : Expression,
    e.encode.height < bound →
    expression? e.encode = some e

section Encoded

variable {expression? : Json → Option Expression}
variable {j : Json}

/-
  A decoder that reads all documents below a height reads
  those below a lower one.
-/
theorem Expression.ReadsBelow.mono
    {bound bound' : Nat}
    (hReads : ReadsBelow expression? bound)
    (hLe : bound' ≤ bound) :
    ReadsBelow expression? bound' :=
  fun e hBelow => hReads e (Nat.lt_of_lt_of_le hBelow hLe)

/- What is behind a key is given back. -/
theorem Expression.ReadsBelow.read
    {e : Expression}
    {key : String}
    (hReads : ReadsBelow expression? j.height)
    (hMember : j.member? key = some e.encode) :
    expression? e.encode = some e :=
  hReads e (Json.height_lt_of_member? hMember)

/- A missing expression is given back as missing. -/
theorem Expression.ReadsBelow.read_option
    {x : Option Expression}
    {key : String}
    (hReads : ReadsBelow expression? j.height)
    (hMember : j.member? key = some (encodeOption x)) :
    optional? expression? (encodeOption x) = some x := by
  rw [encodeOption_eq]
  apply Json.optional?_ofOption encode_ne_null
  rintro e rfl
  exact hReads.read hMember

open Expression (ReadsBelow)

/- An arm is decoded if the expressions in it are. -/
theorem MatchArm.decodeWith?_encode
    {a : MatchArm}
    (hReads : ReadsBelow expression? a.encode.height) :
    decodeWith? expression? a.encode = some a := by
  have hFields := hasFields_encode a
  generalize a.encode = j at hFields hReads ⊢
  cases a
  simp only [jsonFields, Json.hasFields_cons] at hFields
  have hValue := hReads.read hFields.2.1
  simp [decodeWith?, at?, hFields, hValue]

/- So is a match, whose arms are smaller than it. -/
theorem Match.decodeWith?_of_hasFields
    {m : Match}
    (hReads : ReadsBelow expression? j.height)
    (hFields : j.HasFields m.jsonFields) :
    decodeWith? expression? j = some m := by
  rcases m with ⟨value, arms, span⟩
  simp only [jsonFields, encodeArms_eq, Json.hasFields_cons]
    at hFields
  have hValue := hReads.read hFields.1
  have hArms :
      ∀ a ∈ arms,
        MatchArm.decodeWith? expression? a.encode =
          some a := by
    intro a hMem
    apply MatchArm.decodeWith?_encode
    apply hReads.mono
    exact
      Nat.le_of_lt
        (Json.height_lt_of_mem_member? hFields.2.1 hMem)
  simp [decodeWith?, at?, hFields, hValue,
    Json.items?_array hArms]

/-
  A binding is decoded with or without its type and its
  value.
-/
theorem LetBinding.decodeWith?_of_hasFields
    {b : LetBinding}
    (hReads : ReadsBelow expression? j.height)
    (hFields : j.HasFields b.jsonFields) :
    decodeWith? expression? j = some b := by
  rcases b with ⟨isMut, name, ty, value, span⟩
  simp only [jsonFields, Json.hasFields_cons] at hFields
  have hValue := hReads.read_option hFields.2.2.2.1
  simp [decodeWith?, at?, hFields, hValue]

/- Statements are told apart by their tags. -/
theorem Statement.decodeWith?_encode
    {s : Statement}
    (hReads : ReadsBelow expression? s.encode.height) :
    decodeWith? expression? s.encode = some s := by
  have hFields := hasFields_encode s
  generalize s.encode = j at hFields hReads ⊢
  cases s with
  | binding b =>
      rcases Json.hasFields_cons.mp hFields with
        ⟨hTag, hBinding⟩
      simp [decodeWith?, at?, hTag,
        LetBinding.decodeWith?_of_hasFields hReads hBinding]
  | expression value span =>
      simp only [jsonFields, tag, Json.hasFields_cons]
        at hFields
      have hValue := hReads.read hFields.2.1
      simp [decodeWith?, at?, hFields, hValue]

/-
  A block is decoded statement by statement, with its last
  expression if there is one.
-/
theorem Block.decodeWith?_of_hasFields
    {b : Block}
    (hReads : ReadsBelow expression? j.height)
    (hFields : j.HasFields b.jsonFields) :
    decodeWith? expression? j = some b := by
  rcases b with ⟨statements, tail, span⟩
  simp only [jsonFields, encodeStatements_eq,
    Json.hasFields_cons] at hFields
  have hTail := hReads.read_option hFields.2.1
  have hStatements :
      ∀ s ∈ statements,
        Statement.decodeWith? expression? s.encode =
          some s := by
    intro s hMem
    apply Statement.decodeWith?_encode
    apply hReads.mono
    exact
      Nat.le_of_lt
        (Json.height_lt_of_mem_member? hFields.1 hMem)
  simp [decodeWith?, at?, hFields, hTail,
    Json.items?_array hStatements]

end Encoded

/-
  One step decodes an expression if every smaller one is
  decoded.
-/
theorem Expression.decodeStep?_encode
    (expression? : Json → Option Expression)
    (e : Expression)
    (hReads : ReadsBelow expression? e.encode.height) :
    decodeStep? expression? e.encode = some e := by
  have hFields := hasFields_encode e
  generalize e.encode = j at hFields hReads ⊢
  cases e with
  | literal l =>
      rcases Json.hasFields_cons.mp hFields with
        ⟨hTag, hLiteral⟩
      simp [decodeStep?, at?, hTag,
        Literal.decode?_of_hasFields hLiteral]
  | path p =>
      rcases Json.hasFields_cons.mp hFields with
        ⟨hTag, hPath⟩
      simp [decodeStep?, at?, hTag,
        Path.decode?_of_hasFields hPath]
  | block b =>
      rcases Json.hasFields_cons.mp hFields with
        ⟨hTag, hBlock⟩
      simp [decodeStep?, at?, hTag,
        Block.decodeWith?_of_hasFields hReads hBlock]
  | matching m =>
      rcases Json.hasFields_cons.mp hFields with
        ⟨hTag, hMatch⟩
      simp [decodeStep?, at?, hTag,
        Match.decodeWith?_of_hasFields hReads hMatch]

/-
  By induction on the height, an expression is what its own
  document is decoded to.
-/
@[simp] theorem Expression.decode?_encode
    (e : Expression) :
    decode? e.encode = some e :=
  Json.nested?_encode decodeStep?_encode e

/- A block is decoded below the same bound. -/
theorem Block.decode?_of_hasFields
    {j : Json}
    {b : Block}
    (hFields : j.HasFields b.jsonFields) :
    decode? j = some b :=
  decodeWith?_of_hasFields
    (fun e _ => e.decode?_encode) hFields

/- A block is what its own document is decoded to. -/
@[simp] theorem Block.decode?_encode
    (b : Block) :
    decode? b.encode = some b := by
  apply decode?_of_hasFields
  apply Json.hasFields_record
  cases b
  simp [jsonFields]

------------------------------------------------------------
-- Written Documents
------------------------------------------------------------

mutual

/- The document of an expression can be written. -/
@[simp] theorem Expression.encode_written
    (e : Expression) :
    e.encode.IsWritten := by
  cases e with
  | literal l =>
      exact Json.isWritten_tagged _ _ l.jsonFields_written
  | path p =>
      exact Json.isWritten_tagged _ _ p.jsonFields_written
  | block b =>
      have hBlock := Block.jsonFields_written b
      exact Json.isWritten_tagged _ _ hBlock
  | matching m =>
      have hMatch := Match.jsonFields_written m
      exact Json.isWritten_tagged _ _ hMatch

theorem Block.jsonFields_written
    (b : Block) :
    ∀ f ∈ b.jsonFields, f.2.IsWritten := by
  rcases b with ⟨statements, tail, span⟩
  have hStatements :=
    Block.encodeStatements_written statements
  have hTail := Expression.encodeOption_written tail
  simp [Block.jsonFields, Json.IsWritten.array hStatements,
    hTail]

/- The document of a statement can be written. -/
theorem Statement.encode_written
    (s : Statement) :
    s.encode.IsWritten := by
  cases s with
  | binding b =>
      have hBinding := LetBinding.jsonFields_written b
      exact Json.isWritten_tagged _ _ hBinding
  | expression value span =>
      have hValue := Expression.encode_written value
      exact Json.isWritten_tagged _ _ (by simp [hValue])

/-
  The fields of a binding can be written, a missing type or
  value included.
-/
theorem LetBinding.jsonFields_written
    (b : LetBinding) :
    ∀ f ∈ b.jsonFields, f.2.IsWritten := by
  rcases b with ⟨isMut, name, ty, value, span⟩
  have hValue := Expression.encodeOption_written value
  simp [LetBinding.jsonFields, hValue]

theorem Match.jsonFields_written
    (m : Match) :
    ∀ f ∈ m.jsonFields, f.2.IsWritten := by
  rcases m with ⟨value, arms, span⟩
  have hValue := Expression.encode_written value
  have hArms := Match.encodeArms_written arms
  simp [Match.jsonFields, Json.IsWritten.array hArms,
    hValue]

theorem MatchArm.encode_written
    (a : MatchArm) :
    a.encode.IsWritten := by
  rcases a with ⟨pattern, value, span⟩
  have hValue := Expression.encode_written value
  refine .record ?_
  simp [hValue]

/- The documents of statements in a list can be written. -/
theorem Block.encodeStatements_written
    (ss : List Statement) :
    ∀ j ∈ Block.encodeStatements ss, j.IsWritten := by
  cases ss with
  | nil => exact nofun
  | cons s ss =>
      exact
        List.forall_mem_cons.mpr
          ⟨Statement.encode_written s,
            Block.encodeStatements_written ss⟩

/- The documents of arms in a list can be written. -/
theorem Match.encodeArms_written
    (arms : List MatchArm) :
    ∀ j ∈ Match.encodeArms arms, j.IsWritten := by
  cases arms with
  | nil => exact nofun
  | cons a arms =>
      exact
        List.forall_mem_cons.mpr
          ⟨MatchArm.encode_written a,
            Match.encodeArms_written arms⟩

/-
  The document of an expression that may be missing can be
  written.
-/
theorem Expression.encodeOption_written
    (x : Option Expression) :
    (Expression.encodeOption x).IsWritten := by
  cases x with
  | none => exact .null
  | some e => exact Expression.encode_written e

end

@[simp] theorem Block.encode_written
    (b : Block) :
    b.encode.IsWritten :=
  .record b.jsonFields_written

end FeSyntax
