import FeSyntax.Proofs.Json.Escape
import FeSyntax.Proofs.Text.Decimal

/-
  This file proves that values are read back from the JSON
  that they are encoded as.  The fields of a record are
  found by their keys, unless a key is repeated, and other
  members of the record do not matter.

  Key theorems include:
    * `Json.toText?_ofText`
    * `Json.toNat?_ofNat`
    * `Json.toRecord?_record`
    * `Json.toRecord?_record_cons`
-/

namespace FeSyntax

namespace Json

------------------------------------------------------------
-- Single Values
------------------------------------------------------------

@[simp] theorem toText?_ofText
    (s : String) :
    (ofText s).toText? = some s :=
  Body.unescape?_escape s

@[simp] theorem toBool?_bool
    (b : Bool) :
    (bool b).toBool? = some b :=
  rfl

@[simp] theorem toItems?_array
    (items : List Json) :
    (array items).toItems? = some items :=
  rfl

/- A number is read back if it is below the bound. -/
theorem toNat?_ofNat
    {bound n : Nat}
    (hBelow : n < bound) :
    (ofNat n).toNat? bound = some n := by
  rw [ofNat, toNat?, Text.toList_toString]
  exact Text.decimalBelow?_toDigits hBelow

/- Items are read back if each of them is. -/
theorem mapM_decode
    {α : Type}
    {encode : α → Json}
    {decode? : Json → Option α}
    {as : List α}
    (hItems : ∀ a ∈ as, decode? (encode a) = some a) :
    (as.map encode).mapM decode? = some as := by
  induction as with
  | nil => rfl
  | cons a as ih =>
      rcases List.forall_mem_cons.mp hItems with
        ⟨hFirst, hLater⟩
      rw [List.map_cons, List.mapM_cons, hFirst, ih hLater]
      rfl

------------------------------------------------------------
-- Keys
------------------------------------------------------------

/- The keys of members are read back without escapes. -/
theorem decodeKeys_record
    (fields : List (String × Json)) :
    decodeKeys
        (fields.map (fun f => (Body.escape f.1, f.2))) =
      some fields := by
  induction fields with
  | nil => rfl
  | cons field fields ih =>
      rw [decodeKeys] at ih ⊢
      rw [List.map_cons, List.mapM_cons, ih,
        Body.unescape?_escape]
      rfl

/- The fields of a record are looked up one by one. -/
theorem toRecord?_eq_mapM
    (keys : List String)
    (fields : List (String × Json)) :
    (record fields).toRecord? keys =
      keys.mapM (fieldOf? fields) := by
  rw [record, toRecord?, decodeKeys_record]
  rfl

/- A key that no member has, has no values. -/
theorem valuesOf_eq_nil
    {fields : List (String × Json)}
    {key : String}
    (hNone : key ∉ fields.map Prod.fst) :
    valuesOf fields key = [] := by
  have hKeys :
      fields.filter (fun f => f.1 = key) = [] := by
    rw [List.filter_eq_nil_iff]
    intro f hMem hKey
    refine hNone (List.mem_map.mpr ⟨f, hMem, ?_⟩)
    exact of_decide_eq_true hKey
  rw [valuesOf, hKeys, List.map_nil]

/- A member with another key does not matter. -/
theorem fieldOf?_cons_of_ne
    {field : String × Json}
    {key : String}
    (hOther : field.1 ≠ key)
    (fields : List (String × Json)) :
    fieldOf? (field :: fields) key =
      fieldOf? fields key := by
  rw [fieldOf?, fieldOf?, valuesOf, valuesOf,
    List.filter_cons_of_neg (by simpa using hOther)]

/- A key that is not repeated has the value behind it. -/
theorem fieldOf?_cons_self
    {key : String}
    {value : Json}
    {fields : List (String × Json)}
    (hOnce : key ∉ fields.map Prod.fst) :
    fieldOf? ((key, value) :: fields) key =
      some (some value) := by
  have hRest := valuesOf_eq_nil hOnce
  rw [valuesOf] at hRest
  rw [fieldOf?, valuesOf,
    List.filter_cons_of_pos (by simp), List.map_cons, hRest]

------------------------------------------------------------
-- Records
------------------------------------------------------------

/-
  Members with keys that nobody asks for are ignored, as is
  the tag in front of the fields of a node.
-/
theorem toRecord?_record_cons
    {field : String × Json}
    {keys : List String}
    (hOther : field.1 ∉ keys)
    (fields : List (String × Json)) :
    (record (field :: fields)).toRecord? keys =
      (record fields).toRecord? keys := by
  rw [toRecord?_eq_mapM, toRecord?_eq_mapM]
  induction keys with
  | nil => rfl
  | cons key keys ih =>
      have hFirst : field.1 ≠ key := fun h =>
        hOther (h ▸ .head _)
      have hLater : field.1 ∉ keys := fun h =>
        hOther (.tail _ h)
      rw [List.mapM_cons, List.mapM_cons, ih hLater,
        fieldOf?_cons_of_ne hFirst]

/- The fields of a record are found by their keys. -/
theorem toRecord?_record
    {keys : List String}
    (fields : List (String × Json))
    (hKeys : fields.map Prod.fst = keys)
    (hNodup : keys.Nodup) :
    (record fields).toRecord? keys =
      some (fields.map (fun f => some f.2)) := by
  subst hKeys
  induction fields with
  | nil => rfl
  | cons field fields ih =>
      rcases field with ⟨key, value⟩
      rcases List.nodup_cons.mp hNodup with ⟨hOnce, hRest⟩
      have hLater := ih hRest
      rw [← toRecord?_record_cons hOnce,
        toRecord?_eq_mapM] at hLater
      rw [toRecord?_eq_mapM, List.map_cons, List.mapM_cons,
        fieldOf?_cons_self hOnce, hLater]
      rfl

end Json

end FeSyntax
