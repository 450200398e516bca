import RecordQuery.FieldPath.Resolution
import RecordQuery.Proofs.Json.WellFormed

/-!
# The document at the end of a path

A field value stands for a document, or for nothing. `Json.follow?` is
the way to that document without the value and its place, and resolution
agrees with it (`toJson?_resolve`): a number that was read comes back as
the number it was (`Number.toJson_ofJson`).
-/

namespace RecordQuery

/-! ## Values as documents -/

theorem Number.toJson_ofJson (n : JsonNumber) : (Number.ofJson n).toJson = .number n := by
  cases n with
  | integer value fits =>
      obtain ⟨hlow, hhigh⟩ := fits
      rw [Number.ofJson]
      split
      · rename_i hsigned
        have hvalue : (Int64.ofInt value).toInt = value :=
          Int64.toInt_ofInt_of_le hlow hsigned
        simp only [Number.toJson, Json.ofInt, hvalue]
      · rename_i hunsigned
        have hnat : (UInt64.ofNat value.toNat).toNat = value.toNat :=
          UInt64.toNat_ofNat_of_lt' (by rw [UInt64.size]; omega)
        have hvalue : ((UInt64.ofNat value.toNat).toNat : Int) = value := by omega
        simp only [Number.toJson, Json.ofWord, Json.ofInt, hvalue]
  | float value finite => rw [Number.ofJson, Number.toJson, dif_pos finite]

namespace FieldValue

theorem toJson?_ofJson (place : Place) (json : Json) :
    (ofJson place json).toJson? = some json := by
  cases json with
  | number n => exact congrArg some (Number.toJson_ofJson n)
  | _ => rfl

theorem toJson?_eq_none {v : FieldValue} : v.toJson? = none ↔ v = .undefined := by
  cases v <;> simp [toJson?]

end FieldValue

/-! ## Following segments -/

namespace Json

/-- A count as a document, if the segment asks for one and is the last. -/
def lengthAt? (count : Nat) (segment : String) (rest : List String) : Option Json :=
  if segment = "length" ∧ rest = [] then some (ofWord (.ofNat count)) else none

/-- The document that segments lead to. -/
def follow? (json : Json) : List String → Option Json
  | [] => some json
  | segment :: rest =>
    match json with
    | .object members => (Members.get? segment members).bind fun value => value.follow? rest
    | .array items =>
      match FieldPath.readIndex? segment with
      | some index => items[index]?.bind fun item => item.follow? rest
      | none => lengthAt? items.length segment rest
    | .string s => lengthAt? (Text.unitCount s) segment rest
    | _ => none

theorem follow?_object (members : Members) (segment : String) (rest : List String) :
    (Json.object members).follow? (segment :: rest)
      = (Members.get? segment members).bind fun value => value.follow? rest :=
  rfl

theorem follow?_array_of_index (items : List Json) {segment : String} {index : Nat}
    (h : FieldPath.readIndex? segment = some index) (rest : List String) :
    (Json.array items).follow? (segment :: rest)
      = items[index]?.bind fun item => item.follow? rest := by
  rw [follow?, h]

theorem follow?_array_of_not_index (items : List Json) {segment : String}
    (h : FieldPath.readIndex? segment = none) (rest : List String) :
    (Json.array items).follow? (segment :: rest) = lengthAt? items.length segment rest := by
  rw [follow?, h]

theorem follow?_member {members : Members} {name : String} {value : Json}
    (h : Members.get? name members = some value) :
    (Json.object members).follow? [name] = some value := by
  rw [follow?_object, h]
  rfl

theorem follow?_element {items : List Json} {segment : String} {index : Nat} {item : Json}
    (hindex : FieldPath.readIndex? segment = some index) (hitem : items[index]? = some item) :
    (Json.array items).follow? [segment] = some item := by
  rw [follow?_array_of_index items hindex, hitem]
  rfl

theorem lengthAt?_eq_some {count : Nat} {segment : String} {rest : List String} {value : Json} :
    lengthAt? count segment rest = some value
      ↔ (segment = "length" ∧ rest = []) ∧ ofWord (.ofNat count) = value := by
  rw [lengthAt?, Option.ite_none_right_eq_some, Option.some.injEq]

/-- Segments are followed one at a time, and nothing lies beyond a count. -/
theorem follow?_cons (json : Json) (segment : String) (rest : List String) :
    json.follow? (segment :: rest)
      = (json.follow? [segment]).bind fun value => value.follow? rest := by
  have hlength : ∀ count : Nat, lengthAt? count segment rest
      = (lengthAt? count segment []).bind fun value => value.follow? rest := by
    intro count
    by_cases hsegment : segment = "length"
    · cases rest <;> simp [lengthAt?, hsegment, ofWord, ofInt, Json.follow?]
    · simp [lengthAt?, hsegment]
  cases json with
  | object members =>
      rw [follow?_object, follow?_object, Option.bind_assoc]
      rfl
  | array items =>
      cases hindex : FieldPath.readIndex? segment with
      | none =>
          rw [follow?_array_of_not_index items hindex, follow?_array_of_not_index items hindex,
            hlength]
      | some index =>
          rw [follow?_array_of_index items hindex, follow?_array_of_index items hindex,
            Option.bind_assoc]
          rfl
  | string s => exact hlength _
  | _ => rfl

theorem follow?_append (json : Json) (first rest : List String) :
    json.follow? (first ++ rest) = (json.follow? first).bind fun value => value.follow? rest := by
  induction first generalizing json with
  | nil => rfl
  | cons segment first ih =>
      rw [List.cons_append, follow?_cons, follow?_cons json segment first, Option.bind_assoc]
      exact congrArg _ (funext ih)

theorem WellFormed.follow? {segments : List String} :
    ∀ {json value : Json}, json.WellFormed → json.follow? segments = some value →
      value.WellFormed := by
  induction segments with
  | nil =>
      intro json value h hvalue
      obtain rfl := Option.some.inj hvalue
      exact h
  | cons segment rest ih =>
      intro json value h hvalue
      cases json with
      | object members =>
          obtain ⟨inner, hinner, hrest⟩ := Option.bind_eq_some_iff.mp hvalue
          exact ih (h.member hinner) hrest
      | array items =>
          cases hindex : FieldPath.readIndex? segment with
          | some index =>
              rw [follow?_array_of_index items hindex] at hvalue
              obtain ⟨inner, hinner, hrest⟩ := Option.bind_eq_some_iff.mp hvalue
              exact ih (h.item hinner) hrest
          | none =>
              rw [follow?_array_of_not_index items hindex] at hvalue
              obtain ⟨-, rfl⟩ := lengthAt?_eq_some.mp hvalue
              exact .number _
      | string s =>
          obtain ⟨-, rfl⟩ := lengthAt?_eq_some.mp hvalue
          exact .number _
      | _ => cases hvalue

end Json

/-! ## Resolution -/

theorem FieldPath.toJson?_resolveLength (count : Nat) (segment : String) (rest : List String) :
    (FieldPath.resolveLength count segment rest).toJson?
      = Json.lengthAt? count segment rest := by
  unfold FieldPath.resolveLength Json.lengthAt?
  split <;> rfl

theorem FieldPath.toJson?_resolveSegments :
    ∀ (place : Place) (json : Json) (segments : List String),
      (FieldPath.resolveSegments place json segments).toJson? = json.follow? segments
  | place, json, [] => FieldValue.toJson?_ofJson place json
  | place, .object members, segment :: rest => by
      rw [FieldPath.resolveSegments, Json.follow?_object]
      cases Members.get? segment members with
      | none => rfl
      | some value => exact toJson?_resolveSegments (place.member segment) value rest
  | place, .array items, segment :: rest => by
      rw [FieldPath.resolveSegments, Json.follow?]
      cases FieldPath.readIndex? segment with
      | none => exact toJson?_resolveLength items.length segment rest
      | some index =>
          dsimp only
          cases items[index]? with
          | none => rfl
          | some item => exact toJson?_resolveSegments (place.element index) item rest
  | _, .string s, segment :: rest => toJson?_resolveLength (Text.unitCount s) segment rest
  | _, .null, _ :: _ | _, .bool _, _ :: _ | _, .number _, _ :: _ => rfl

/-- A path resolves to the document that its segments lead to. -/
theorem FieldPath.toJson?_resolve (key : FieldPath) (record : Json) :
    (key.resolve record).toJson? = record.follow? key.segments :=
  toJson?_resolveSegments (.root 0) record key.segments

theorem FieldPath.resolve_ne_undefined {key : FieldPath} {record : Json} :
    key.resolve record ≠ .undefined ↔ ∃ value, record.follow? key.segments = some value := by
  rw [← toJson?_resolve, Ne, ← FieldValue.toJson?_eq_none]
  exact Option.ne_none_iff_exists'

end RecordQuery
