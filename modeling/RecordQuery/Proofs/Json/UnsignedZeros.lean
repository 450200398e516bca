import RecordQuery.FieldValue.Coercion
import RecordQuery.Proofs.Binary64.IntegerText
import RecordQuery.Proofs.FieldPath.Following

/-!
# Documents up to the sign of zero

As numbers the two zeros are equal, so two documents can be equal of which
one has a negative zero where the other has zero. They are those that
become the same document when every negative zero in them is made zero
(`Json.unsignZeros`). Neither the order of numbers nor any text shows the
difference (`key?_unsignZero`, `text_unsignZeros`), and paths lead to the
same parts (`follow?_unsignZeros`).
-/

namespace RecordQuery

/-! ## Numbers -/

namespace Binary64

/-- The number, but zero for the negative zero. -/
def unsignZero (x : Binary64) : Binary64 :=
  if x.isZero then zero else x

theorem key?_unsignZero (x : Binary64) : x.unsignZero.key? = x.key? := by
  unfold unsignZero
  split
  · rename_i h
    exact (isZero_iff.mp h).symm
  · rfl

theorem text_unsignZero (x : Binary64) : x.unsignZero.text = x.text := by
  unfold unsignZero
  split
  · rename_i h
    exact (text_of_key?_eq_zero (isZero_iff.mp h)).symm
  · rfl

theorem isFinite_unsignZero {x : Binary64} (h : x.isFinite = true) :
    x.unsignZero.isFinite = true := by
  unfold unsignZero
  split
  · rfl
  · exact h

end Binary64

/-- The number of a document, but zero for the negative zero. -/
def JsonNumber.unsignZero : JsonNumber → JsonNumber
  | .integer value fits => .integer value fits
  | .float value finite => .float value.unsignZero (Binary64.isFinite_unsignZero finite)

namespace Number

theorem key?_ofJson_unsignZero (n : JsonNumber) :
    (ofJson n.unsignZero).toBinary64.key? = (ofJson n).toBinary64.key? := by
  cases n with
  | integer value fits => rfl
  | float value finite => exact value.key?_unsignZero

theorem text_ofJson_unsignZero (n : JsonNumber) :
    (ofJson n.unsignZero).text = (ofJson n).text := by
  cases n with
  | integer value fits => rfl
  | float value finite => exact value.text_unsignZero

end Number

/-! ## Documents -/

namespace Json

mutual

/-- The document with zero for every negative zero in it. -/
def unsignZeros : Json → Json
  | .null => .null
  | .bool b => .bool b
  | .number n => .number n.unsignZero
  | .string s => .string s
  | .array items => .array (unsignItems items)
  | .object members => .object (unsignMembers members)

def unsignItems : List Json → List Json
  | [] => []
  | item :: rest => item.unsignZeros :: unsignItems rest

def unsignMembers : List (String × Json) → List (String × Json)
  | [] => []
  | (name, value) :: rest => (name, value.unsignZeros) :: unsignMembers rest

end

theorem unsignItems_eq_map (items : List Json) : unsignItems items = items.map unsignZeros := by
  induction items with
  | nil => rfl
  | cons item rest ih => rw [unsignItems, ih, List.map_cons]

/-- Arrays that are equal up to the sign of zero are so element by element. -/
theorem map_unsignZeros_of_array {xs ys : List Json}
    (h : (Json.array xs).unsignZeros = (Json.array ys).unsignZeros) :
    xs.map unsignZeros = ys.map unsignZeros := by
  rw [← unsignItems_eq_map, ← unsignItems_eq_map]
  exact Json.array.inj h

theorem get?_unsignMembers (name : String) :
    ∀ members : Members,
      Members.get? name (unsignMembers members) = (Members.get? name members).map unsignZeros
  | [] => rfl
  | (other, value) :: rest => by
      rw [unsignMembers, Members.get?, Members.get?, get?_unsignMembers name rest]
      split <;> rfl

mutual

/-- Both zeros have one text. -/
theorem text_unsignZeros : ∀ json : Json, json.unsignZeros.text = json.text
  | .null | .bool _ | .string _ | .object _ => rfl
  | .number n => Number.text_ofJson_unsignZero n
  | .array items => by rw [unsignZeros, text, text, itemTexts_unsignItems items]

theorem itemTexts_unsignItems :
    ∀ items : List Json, itemTexts (unsignItems items) = itemTexts items
  | [] => rfl
  | item :: rest => by
      have hrest := itemTexts_unsignItems rest
      have hitem := text_unsignZeros item
      -- In an array `null` has no text of its own, and it stays `null`.
      cases item with
      | null => rw [unsignItems, unsignZeros, itemTexts, itemTexts, hrest]
      | _ =>
          rw [unsignZeros] at hitem
          simp only [unsignItems, unsignZeros, itemTexts, hrest, hitem]

end

theorem lengthAt?_map_unsignZeros (count : Nat) (segment : String) (rest : List String) :
    (lengthAt? count segment rest).map unsignZeros = lengthAt? count segment rest := by
  unfold lengthAt?
  split <;> rfl

/-- Segments lead to the same part of the document, with the zeros in it changed. -/
theorem follow?_unsignZeros :
    ∀ (json : Json) (segments : List String),
      json.unsignZeros.follow? segments = (json.follow? segments).map unsignZeros
  | json, [] => rfl
  | .object members, segment :: rest => by
      rw [unsignZeros, follow?_object, follow?_object, get?_unsignMembers]
      cases Members.get? segment members with
      | none => rfl
      | some value => exact follow?_unsignZeros value rest
  | .array items, segment :: rest => by
      rw [unsignZeros, follow?, follow?, unsignItems_eq_map, List.length_map]
      cases FieldPath.readIndex? segment with
      | none => exact (lengthAt?_map_unsignZeros items.length segment rest).symm
      | some index =>
          dsimp only
          rw [List.getElem?_map]
          cases items[index]? with
          | none => rfl
          | some item => exact follow?_unsignZeros item rest
  | .string s, segment :: rest =>
      (lengthAt?_map_unsignZeros (Text.unitCount s) segment rest).symm
  | .null, _ :: _ | .bool _, _ :: _ | .number _, _ :: _ => rfl

end Json

end RecordQuery
