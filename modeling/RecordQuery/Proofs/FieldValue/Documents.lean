import RecordQuery.Proofs.FieldPath.Following
import RecordQuery.Proofs.FieldValue.SortOrder
import RecordQuery.Proofs.Number.Canonical

/-!
# What a value owes to its document

Two values with the same document have the same text and the same place
in the order for sorting, although they need not be the same: the length
of an array is an unsigned number, which comes back from a document with a
sign, and a container that was copied stands at another place. A number
without a numeral is stored as `null`, but no path leads to one
(`FieldPath.isStorable_resolve`).
-/

namespace RecordQuery

namespace FieldValue

/-- The value has a document of its own, or none because it is nothing. -/
def IsStorable : FieldValue → Prop
  | number n => n.isFinite = true
  | _ => True

/-- The value that a document is read as, and nothing if there is none. -/
def reread (document : Option Json) : FieldValue :=
  document.elim undefined (ofJson (.root 0))

theorem isStorable_ofJson (place : Place) (json : Json) : (ofJson place json).IsStorable := by
  cases json with
  | number n => exact Number.isFinite_ofJson n
  | _ => trivial

/-- Reading the document of a number gives its canonical form. -/
theorem reread_toJson?_number {n : Number} (h : n.isFinite = true) :
    reread (number n).toJson? = number n.canonical := by
  obtain ⟨numeral, hnumeral, hcanonical⟩ := Number.exists_toJson_of_isFinite h
  rw [toJson?, hnumeral, ← hcanonical]
  rfl

/-- The text of a value is that of its document. -/
theorem text_reread_toJson? {v : FieldValue} (h : v.IsStorable) :
    (reread v.toJson?).text = v.text := by
  cases v with
  | number n =>
      rw [reread_toJson?_number h]
      exact Number.text_canonical n
  | _ => rfl

/-- A value is sorted by its document. -/
theorem sortCode_reread_toJson? {v : FieldValue} (h : v.IsStorable) :
    (reread v.toJson?).sortCode = v.sortCode := by
  cases v with
  | number n => rw [reread_toJson?_number h, sortCode, sortCode, Number.toBinary64_canonical]
  | _ => rfl

theorem text_congr {v w : FieldValue} (hv : v.IsStorable) (hw : w.IsStorable)
    (h : v.toJson? = w.toJson?) : v.text = w.text := by
  rw [← text_reread_toJson? hv, h, text_reread_toJson? hw]

theorem compareForSort_congr {v w v' w' : FieldValue} (hv : v.IsStorable) (hw : w.IsStorable)
    (hv' : v'.IsStorable) (hw' : w'.IsStorable) (h : v.toJson? = v'.toJson?)
    (h' : w.toJson? = w'.toJson?) : compareForSort v w = compareForSort v' w' := by
  rw [compareForSort_eq_compareOn, compareOn, compareOn, ← sortCode_reread_toJson? hv,
    ← sortCode_reread_toJson? hw, h, h', sortCode_reread_toJson? hv',
    sortCode_reread_toJson? hw']

end FieldValue

/-! ## What paths lead to -/

namespace FieldPath

theorem isStorable_resolveLength (count : Nat) (segment : String) (rest : List String) :
    (resolveLength count segment rest).IsStorable := by
  unfold resolveLength
  split <;> trivial

theorem isStorable_resolveSegments :
    ∀ (place : Place) (json : Json) (segments : List String),
      (resolveSegments place json segments).IsStorable
  | place, json, [] => FieldValue.isStorable_ofJson place json
  | place, .object members, segment :: rest => by
      rw [resolveSegments]
      cases Members.get? segment members with
      | none => trivial
      | some value => exact isStorable_resolveSegments (place.member segment) value rest
  | place, .array items, segment :: rest => by
      rw [resolveSegments]
      cases readIndex? segment with
      | none => exact isStorable_resolveLength items.length segment rest
      | some index =>
          dsimp only
          cases items[index]? with
          | none => trivial
          | some item => exact isStorable_resolveSegments (place.element index) item rest
  | _, .string s, segment :: rest => isStorable_resolveLength (Text.unitCount s) segment rest
  | _, .null, _ :: _ | _, .bool _, _ :: _ | _, .number _, _ :: _ => trivial

theorem isStorable_resolve (key : FieldPath) (record : Json) : (key.resolve record).IsStorable :=
  isStorable_resolveSegments (.root 0) record key.segments

end FieldPath

end RecordQuery
