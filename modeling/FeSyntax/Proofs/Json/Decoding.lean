import FeSyntax.Proofs.Json.Record

/-
  This file defines the parts of decoders of documents: what
  is behind a key, numbers of any size, values that may be
  absent, values in a row, and values that contain values of
  their own kind.  Each of them is proved to give back what
  an encoder has put there.

  Key definitions include:
    * `Json.member?`
    * `Json.at?`
    * `Json.HasFields`
    * `Json.natural?`
    * `Json.optional?`
    * `Json.items?`
    * `Json.height`
    * `Json.nested?`

  Key theorems include:
    * `Json.hasFields_record`
    * `Json.optional?_ofOption`
    * `Json.items?_array`
    * `Json.height_lt_of_member?`
    * `Json.nested?_encode`
-/

namespace FeSyntax

namespace Json

------------------------------------------------------------
-- Fields Of Records
------------------------------------------------------------

section Fields

variable {α : Type}
variable {j : Json}
variable {key : String}
variable {value : Json}
variable {fields : List (String × Json)}

/- The value of the only member of an object with a key. -/
def member?
    (key : String) : Json → Option Json
  | object members => do
      let members ← decodeKeys members
      (fieldOf? members key).join
  | _ => none

/- What is behind a key, decoded. -/
def at?
    (j : Json)
    (key : String)
    (decode? : Json → Option α) : Option α :=
  (j.member? key).bind decode?

/- A document has fields, and possibly others. -/
def HasFields
    (j : Json)
    (fields : List (String × Json)) : Prop :=
  ∀ f ∈ fields, j.member? f.1 = some f.2

/- Without fields there is nothing to be found. -/
@[simp] theorem hasFields_nil :
    j.HasFields [] :=
  nofun

@[simp] theorem hasFields_cons :
    j.HasFields ((key, value) :: fields) ↔
      j.member? key = some value ∧ j.HasFields fields :=
  List.forall_mem_cons

/- The value of a key is looked up among the fields. -/
theorem member?_record
    (fields : List (String × Json))
    (key : String) :
    (record fields).member? key =
      (fieldOf? fields key).join := by
  rw [record, member?, decodeKeys_record]
  rfl

@[simp] theorem member?_singleton
    (key : String)
    (value : Json) :
    (record [(key, value)]).member? key = some value := by
  rw [member?_record, fieldOf?_cons_self (by simp)]
  rfl

@[simp] theorem member?_singleton_of_ne
    {key key' : String}
    (value : Json)
    (hOther : key ≠ key') :
    (record [(key, value)]).member? key' = none := by
  rw [member?_record, fieldOf?_cons_of_ne hOther]
  rfl

/- Decoding the keys of members leaves their values. -/
theorem values_of_decodeKeys
    {members decoded : List (String × Json)}
    (hDecoded : decodeKeys members = some decoded) :
    decoded.map Prod.snd = members.map Prod.snd := by
  induction members generalizing decoded with
  | nil =>
      cases hDecoded
      rfl
  | cons member members ih =>
      rw [decodeKeys, List.mapM_cons] at hDecoded
      rcases Option.bind_eq_some_iff.mp hDecoded with
        ⟨first, hFirst, hMore⟩
      rcases Option.bind_eq_some_iff.mp hFirst with
        ⟨key, _, hSame⟩
      rcases Option.bind_eq_some_iff.mp hMore with
        ⟨rest, hRest, hBoth⟩
      cases hSame
      cases hBoth
      rw [List.map_cons, List.map_cons, ih hRest]

/- What a key has is a value of one of the members. -/
theorem mem_values_of_fieldOf?
    {members : List (String × Json)}
    (hField : (fieldOf? members key).join = some value) :
    value ∈ members.map Prod.snd := by
  rw [Option.join_eq_some_iff, fieldOf?] at hField
  split at hField
  · cases hField
  · rename_i only hOnly
    cases hField
    have hMem : value ∈ valuesOf members key := by
      rw [hOnly]
      exact .head _
    rcases List.mem_map.mp hMem with ⟨f, hKept, rfl⟩
    exact List.mem_map_of_mem (List.mem_of_mem_filter hKept)
  · cases hField

/- A record has its fields, if they have different keys. -/
theorem hasFields_record
    (hNodup : (fields.map Prod.fst).Nodup) :
    (record fields).HasFields fields := by
  induction fields with
  | nil => exact hasFields_nil
  | cons field fields ih =>
      rcases field with ⟨key, value⟩
      rcases List.nodup_cons.mp hNodup with ⟨hOnce, hRest⟩
      refine hasFields_cons.mpr ⟨?_, ?_⟩
      · rw [member?_record, fieldOf?_cons_self hOnce]
        rfl
      · intro f hMem
        have hKey : f.1 ∈ fields.map Prod.fst :=
          List.mem_map_of_mem hMem
        have hOther : key ≠ f.1 := fun h => hOnce (h ▸ hKey)
        rw [member?_record, fieldOf?_cons_of_ne hOther,
          ← member?_record]
        exact ih hRest f hMem

end Fields

------------------------------------------------------------
-- Numbers And Optional Values
------------------------------------------------------------

/- A number is not taken for a missing value. -/
@[simp] theorem ofNat_ne_null
    (n : Nat) :
    ofNat n ≠ null :=
  nofun

@[simp] theorem ofText_ne_null
    (s : String) :
    ofText s ≠ null :=
  nofun

@[simp] theorem array_ne_null
    (items : List Json) :
    array items ≠ null :=
  nofun

section Values

variable {α : Type}
variable {encode : α → Json}
variable {decode? : Json → Option α}

/- An unsigned integer of any size. -/
def natural? : Json → Option Nat
  | number lexeme =>
      let n := Text.digitsValue 10 lexeme.toList
      (number lexeme).toNat? (n + 1)
  | _ => none

/- A natural number is read back, whatever its size. -/
@[simp] theorem natural?_ofNat
    (n : Nat) :
    (ofNat n).natural? = some n := by
  have hValue :
      Text.digitsValue 10 (toString n).toList = n := by
    rw [Text.toList_toString, Text.digitsValue_toDigits]
  rw [ofNat, natural?]
  simp only [hValue]
  exact toNat?_ofNat (Nat.lt_succ_self n)

/- A value that may be absent. -/
def optional?
    (decode? : Json → Option α) : Json → Option (Option α)
  | null => some none
  | j => (decode? j).map some

/- A value that may be missing is read back. -/
@[simp] theorem optional?_ofOption
    {x : Option α}
    (hNull : ∀ a, encode a ≠ null)
    (hSome : ∀ a ∈ x, decode? (encode a) = some a) :
    optional? decode? (ofOption (x.map encode)) =
      some x := by
  cases x with
  | none => rfl
  | some a =>
      rw [Option.map_some, ofOption, Option.getD_some,
        optional?, hSome a rfl]
      · rfl
      · exact hNull a

/- Values in a row. -/
def items?
    (decode? : Json → Option α)
    (j : Json) : Option (List α) :=
  j.toItems?.bind (List.mapM decode?)

/- A row of values is read back if each of them is. -/
@[simp] theorem items?_array
    {as : List α}
    (hItems : ∀ a ∈ as, decode? (encode a) = some a) :
    items? decode? (array (as.map encode)) = some as :=
  mapM_decode hItems

end Values

------------------------------------------------------------
-- Nested Values
------------------------------------------------------------

mutual

/- How deep a document is nested. -/
def height : Json → Nat
  | array items => itemsHeight items + 1
  | object members => membersHeight members + 1
  | _ => 0

/- How deep the deepest item is nested. -/
def itemsHeight : List Json → Nat
  | [] => 0
  | item :: items => max (height item) (itemsHeight items)

/- How deep the deepest member is nested. -/
def membersHeight : List (String × Json) → Nat
  | [] => 0
  | (_, value) :: members =>
      max (height value) (membersHeight members)

end

/- An item is less deeply nested than its array. -/
theorem height_lt_of_mem_items
    {j : Json}
    {items : List Json}
    (hMem : j ∈ items) :
    j.height < (array items).height := by
  rw [height, Nat.lt_succ_iff]
  induction items with
  | nil => cases hMem
  | cons item items ih =>
      rw [itemsHeight]
      rcases List.mem_cons.mp hMem with rfl | hLater
      · exact Nat.le_max_left _ _
      · have hBelow := ih hLater
        omega

/- A member is no deeper than the deepest of its object. -/
theorem height_le_of_mem_members
    {value : Json}
    {members : List (String × Json)}
    (hMem : value ∈ members.map Prod.snd) :
    value.height ≤ membersHeight members := by
  induction members with
  | nil => cases hMem
  | cons member members ih =>
      rw [membersHeight]
      rcases List.mem_cons.mp hMem with rfl | hLater
      · exact Nat.le_max_left _ _
      · have hBelow := ih hLater
        omega

/- What is behind a key is less deeply nested. -/
theorem height_lt_of_member?
    {j value : Json}
    {key : String}
    (hMember : j.member? key = some value) :
    value.height < j.height := by
  cases j with
  | object members =>
      rcases Option.bind_eq_some_iff.mp hMember with
        ⟨decoded, hDecoded, hField⟩
      rw [height, Nat.lt_succ_iff]
      apply height_le_of_mem_members
      rw [← values_of_decodeKeys hDecoded]
      exact mem_values_of_fieldOf? hField
  | _ => cases hMember

section Nested

variable {α : Type}

/- What is in a row behind a key is less deeply nested. -/
theorem height_lt_of_mem_member?
    {encode : α → Json}
    {as : List α}
    {a : α}
    {j : Json}
    {key : String}
    (hMember : j.member? key = some (array (as.map encode)))
    (hMem : a ∈ as) :
    (encode a).height < j.height :=
  Nat.lt_trans
    (height_lt_of_mem_items (List.mem_map_of_mem hMem))
    (height_lt_of_member? hMember)

/-
  Decode a value whose parts are decoded by the same step,
  down to a depth.
-/
def decodeWithin
    (step? : (Json → Option α) → Json → Option α) :
    Nat → Json → Option α
  | 0 => fun _ => none
  | n + 1 => step? (decodeWithin step? n)

/- Decode a value whose parts are decoded by that step. -/
def nested?
    (step? : (Json → Option α) → Json → Option α)
    (j : Json) : Option α :=
  decodeWithin step? (j.height + 1) j

/-
  If a step gives a value back whenever the parts of the
  value are given back, then all values are.
-/
theorem nested?_encode
    {encode : α → Json}
    {step? : (Json → Option α) → Json → Option α}
    (hStep :
      ∀ inner a,
        (∀ b, (encode b).height < (encode a).height →
          inner (encode b) = some b) →
        step? inner (encode a) = some a)
    (a : α) :
    nested? step? (encode a) = some a := by
  have hWithin :
      ∀ n a, (encode a).height < n →
        decodeWithin step? n (encode a) = some a := by
    intro n
    induction n with
    | zero => exact fun a hBelow => absurd hBelow (by omega)
    | succ n ih =>
        intro a hBelow
        apply hStep
        intro b hInside
        exact ih b (by omega)
  exact hWithin _ a (Nat.lt_succ_self _)

end Nested

end Json

end FeSyntax
