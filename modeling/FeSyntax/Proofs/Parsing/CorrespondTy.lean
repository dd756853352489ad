import FeSyntax.Proofs.Parsing.AdvanceDefinition
import FeSyntax.Proofs.Parsing.Correspond

/-
  This file proves that the parsers of names, types and
  patterns do the same on tokens that are the same up to
  payloads.  No way that they go depends on a payload, a
  span or the text of a token: these show in values only.

  Key theorems include:
    * `Parser.path_corresponds`
    * `Parser.literal_corresponds`
    * `Parser.ty_corresponds`
    * `Parser.pattern_corresponds`
-/

namespace FeSyntax

variable {r : Renaming}
variable {s s' : Span}

------------------------------------------------------------
-- Names And Literals
------------------------------------------------------------

instance : Shaped String :=
  ⟨Renaming.word, id⟩

instance : Shaped LiteralValue :=
  ⟨Renaming.value, id⟩

instance : Shaped Primitive :=
  ⟨fun _ => id, id⟩

instance : Shaped Identifier :=
  ⟨Identifier.rename, Identifier.mapSpans .forget⟩

instance : Shaped Path :=
  ⟨Path.rename, Path.mapSpans .forget⟩

instance : Shaped Literal :=
  ⟨Literal.rename, Literal.mapSpans .forget⟩

/- Identifiers are alike if their names are. -/
theorem Identifier.alike
    {n m : String}
    (hName : Alike r n m) :
    Alike r (mk n s) (mk m s') :=
  congrArg (fun w => mk w ⟨0, 0, 0, 0⟩) hName

/- Paths are alike if their segments are. -/
theorem Path.alike
    {is js : List Identifier}
    (hSegments : Alike r is js) :
    Alike r (mk is s) (mk js s') := by
  simpa [Alike, Shaped.shape, Shaped.rename, rename,
    mapSpans, Span.forget] using hSegments

/- A path has as many segments when it is renamed. -/
theorem Path.length_eq_of_alike
    {p q : Path}
    (hPath : Alike r p q) :
    q.segments.length = p.segments.length := by
  have hSegments := congrArg Path.segments hPath
  simpa [Shaped.shape, Shaped.rename, rename, mapSpans]
    using congrArg List.length hSegments

/- Literals are alike if their values are. -/
theorem Literal.alike
    {v w : LiteralValue}
    (hValue : Alike r v w) :
    Alike r (mk v s) (mk w s') :=
  congrArg (fun v => mk v ⟨0, 0, 0, 0⟩) hValue

namespace Parser

/- A name is passed in the same places, and renamed. -/
theorem identifier_corresponds :
    identifier.Corresponds r identifier := by
  refine .bind (.accept fun kind hProper => ?_) ?_
  · exact r.word?_kind hProper
  · rintro ⟨n, s⟩ ⟨m, s'⟩ hPair
    exact .pure (Identifier.alike (alike_pair.mp hPair).1)

/-
  A path is passed in the same places, each segment renamed.
-/
theorem path_corresponds :
    path.Corresponds r path := by
  have hPasses : identifier.Passes 1 0 := .identifier
  refine .bind identifier_corresponds fun i j hFirst =>
    .bind (.itemsAfter identifier_corresponds hPasses _)
      fun is js hMore => .pure (Path.alike ?_)
  exact alike_cons.mpr ⟨hFirst, hMore⟩

/- A literal is passed in the same places, and kept. -/
theorem literal_corresponds
    (what : Expectation) :
    (literal what).Corresponds r (literal what) := by
  refine .bind (.accept fun kind _ => ?_) ?_
  · exact r.literal?_kind kind
  · rintro ⟨v, s⟩ ⟨w, s'⟩ hPair
    exact .pure (Literal.alike (alike_pair.mp hPair).1)

theorem typeParams_corresponds :
    typeParams.Corresponds r typeParams := by
  have hPasses : identifier.Passes 1 0 := .identifier
  exact .punct?_bind (.pure alike_nil) fun _ _ =>
    .bind (.commaItems identifier_corresponds hPasses)
      fun _ _ hNames =>
        .bind (.punct _) fun _ _ _ => .pure hNames

end Parser

------------------------------------------------------------
-- Types
------------------------------------------------------------

namespace Ty

instance : Shaped Ty :=
  ⟨rename, mapSpans .forget⟩

/- A type that is a path is as alike as the path. -/
theorem alike_path
    {p q : Path}
    (hPath : Alike r p q) :
    Alike r (path p) (path q) :=
  congrArg path hPath

/-
  References are alike if both can change and their types
  are alike.
-/
theorem alike_reference
    {b b' : Bool}
    {ty ty' : Ty}
    (hMut : b' = b)
    (hTy : Alike r ty ty') :
    Alike r (reference b ty s) (reference b' ty' s') := by
  rw [hMut]
  exact congrArg (fun ty => reference b ty ⟨0, 0, 0, 0⟩) hTy

/- Tuples are alike if their elements are. -/
theorem alike_tuple
    {tys tys' : List Ty}
    (hElements : Alike r tys tys') :
    Alike r (tuple tys s) (tuple tys' s') := by
  simpa [Alike, Shaped.shape, Shaped.rename, rename,
    mapSpans, Span.forget] using hElements

theorem alike_primitive
    {p p' : Primitive}
    (hKind : Alike r p p') :
    Alike r (primitive p s) (primitive p' s') :=
  congrArg (fun p => primitive p ⟨0, 0, 0, 0⟩) hKind

end Ty

namespace Parser

/-
  Whatever form a type has is settled by its next token,
  which is renamed to one that leads the same way.
-/
theorem tyOf_corresponds
    {inner : Parser Ty}
    {levels : Nat}
    (hInner : inner.Corresponds r inner)
    (hPasses : inner.Passes 1 levels) :
    (tyOf inner).Corresponds r (tyOf inner) := by
  have hPrimitive :
      primitiveTy.Corresponds r primitiveTy := by
    refine .bind (.accept fun kind _ => ?_) ?_
    · rw [r.primitive?_kind]
      exact Option.map_id'.symm
    · rintro ⟨p, s⟩ ⟨p', s'⟩ hPair
      exact .pure
        (Ty.alike_primitive (alike_pair.mp hPair).1)
  have hReference :
      (referenceTy inner).Corresponds r
        (referenceTy inner) :=
    .bind (.punct _) fun _ _ _ =>
      .bind (.keyword? _) fun _ _ hMut =>
        .bind hInner fun _ _ hTy =>
          .pure (Ty.alike_reference hMut.isSome_eq hTy)
  have hTuple :
      (tupleTy inner).Corresponds r (tupleTy inner) := by
    refine .bind (.punct _) fun _ _ _ =>
      .bind (.commaList hInner hPasses _) ?_
    rintro ⟨tys, s⟩ ⟨tys', s'⟩ hPair
    exact .pure (Ty.alike_tuple (alike_pair.mp hPair).1)
  have hOther :
      ∀ kind : TokenKind,
        (if kind.word?.isSome then Ty.path <$> path
          else fail (.expected .type)).Corresponds r
        (if (r.kind kind).word?.isSome then Ty.path <$> path
          else fail (.expected .type)) := by
    intro kind
    rw [r.isSome_word?_kind]
    split
    · exact path_corresponds.map fun _ _ => Ty.alike_path
    · exact .fail _
  refine .peek_bind (.fail _) fun kind => ?_
  cases kind with
  | primitive p => exact hPrimitive
  | punct mark =>
      cases mark with
      | ampersand => exact hReference
      | leftParen => exact hTuple
      | _ => exact hOther _
  | _ => exact hOther _

theorem ty_corresponds
    (n : Nat) :
    (ty n).Corresponds r (ty n) := by
  induction n with
  | zero => exact .fail _
  | succ n ih => exact tyOf_corresponds ih (ty_passes n)

end Parser

------------------------------------------------------------
-- Patterns
------------------------------------------------------------

namespace Pattern

instance : Shaped Pattern :=
  ⟨rename, mapSpans .forget⟩

/- A binding of a name is as alike as the name. -/
theorem alike_identifier
    {i j : Identifier}
    (hName : Alike r i j) :
    Alike r (identifier i) (identifier j) :=
  congrArg identifier hName

/- A literal pattern is as alike as the literal. -/
theorem alike_literal
    {l m : Literal}
    (hLiteral : Alike r l m) :
    Alike r (literal l) (literal m) :=
  congrArg literal hLiteral

theorem alike_wildcard :
    Alike r (wildcard s) (wildcard s') :=
  rfl

/-
  Patterns with parentheses are alike if their paths and
  elements are.
-/
theorem alike_tupleStruct
    {p q : Path}
    {xs ys : List Pattern}
    (hPath : Alike r p q)
    (hElements : Alike r xs ys) :
    Alike r (tupleStruct p xs s) (tupleStruct q ys s') := by
  simpa [Alike, Shaped.shape, Shaped.rename, rename,
    mapSpans, Span.forget] using And.intro hPath hElements

end Pattern

namespace Parser

/-
  A pattern that starts with a name goes on at a parenthesis
  in both texts or in neither.
-/
theorem namedPattern_corresponds
    {inner : Parser Pattern}
    {levels : Nat}
    (hInner : inner.Corresponds r inner)
    (hPasses : inner.Passes 1 levels) :
    (namedPattern inner).Corresponds r
      (namedPattern inner) := by
  refine .bind path_corresponds fun p q hPath =>
    .punct?_bind ?_ fun _ _ =>
      .bind (.commaList hInner hPasses _) ?_
  · have hLength := Path.length_eq_of_alike hPath
    rcases p with ⟨_ | ⟨i, _ | ⟨i', is⟩⟩, s⟩ <;>
    rcases q with ⟨_ | ⟨j, _ | ⟨j', js⟩⟩, s'⟩
    any_goals cases hLength
    · exact .fail _
    · have hSegments := congrArg Path.segments hPath
      have hName : Alike r i j :=
        List.head_eq_of_cons_eq hSegments
      exact .pure (Pattern.alike_identifier hName)
    · exact .fail _
  · rintro ⟨xs, s⟩ ⟨ys, s'⟩ hPair
    exact .pure
      (Pattern.alike_tupleStruct hPath
        (alike_pair.mp hPair).1)

/- The next token leads patterns the same way too. -/
theorem patternOf_corresponds
    {inner : Parser Pattern}
    {levels : Nat}
    (hInner : inner.Corresponds r inner)
    (hPasses : inner.Passes 1 levels) :
    (patternOf inner).Corresponds r (patternOf inner) := by
  have hNamed := namedPattern_corresponds hInner hPasses
  have hOther :
      ∀ kind : TokenKind,
        (if kind.literal?.isSome then
            Pattern.literal <$> literal .pattern
          else if kind.word?.isSome then namedPattern inner
          else fail (.expected .pattern)).Corresponds r
        (if (r.kind kind).literal?.isSome then
            Pattern.literal <$> literal .pattern
          else if (r.kind kind).word?.isSome then
            namedPattern inner
          else fail (.expected .pattern)) := by
    intro kind
    rw [r.isSome_word?_kind, r.literal?_kind,
      Option.isSome_map]
    split
    · exact (literal_corresponds _).map fun _ _ =>
        Pattern.alike_literal
    · split
      · exact hNamed
      · exact .fail _
  have hWildcard :
      wildcardPattern.Corresponds r wildcardPattern :=
    .bind (.keyword _) fun _ _ _ =>
      .pure Pattern.alike_wildcard
  refine .peek_bind (.fail _) fun kind => ?_
  cases kind with
  | keyword k =>
      cases k with
      | underscore => exact hWildcard
      | _ => exact hOther _
  | _ => exact hOther _

/- Patterns correspond at every level. -/
theorem pattern_corresponds
    (n : Nat) :
    (pattern n).Corresponds r (pattern n) := by
  induction n with
  | zero => exact .fail _
  | succ n ih =>
      exact patternOf_corresponds ih (pattern_passes n)

end Parser

end FeSyntax
