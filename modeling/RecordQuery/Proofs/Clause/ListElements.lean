import RecordQuery.Clause.Matching
import RecordQuery.Proofs.FieldPath.Elements
import RecordQuery.Proofs.FieldValue.Consistency
import RecordQuery.Proofs.Number.Canonical

/-!
# Clauses on lists

A clause that searches a list goes along its elements where they stand and
compares each one, or what a key leads to from it, with the literal. The
comparison by a path of its own begins at the record instead, and the index
goes through its digits. Both compare the same value, so the list clause
matches exactly if one of these comparisons does
(`matchesRecord_iff_exists_element`).

Membership finds `nan` and strict equality does not. That makes no difference
here, since no element of a document is `nan` (`FieldValue.sameValueZero_ofJson`).
-/

namespace RecordQuery

theorem any_zipIdx_iff {α : Type} {p : α × Nat → Bool} {xs : List α} :
    xs.zipIdx.any p = true ↔ ∃ index x, xs[index]? = some x ∧ p (x, index) = true := by
  rw [List.any_eq_true]
  constructor
  · rintro ⟨⟨x, index⟩, hmem, hx⟩
    exact ⟨index, x, List.mk_mem_zipIdx_iff_getElem?.mp hmem, hx⟩
  · rintro ⟨index, x, hget, hx⟩
    exact ⟨(x, index), List.mk_mem_zipIdx_iff_getElem?.mpr hget, hx⟩

/-- What holds of an element by its index holds of some index of the list. -/
theorem exists_getElem?_iff {α : Type} {xs : List α} {p : Nat → α → Prop} {q : Nat → Prop}
    (h : ∀ index x, xs[index]? = some x → (p index x ↔ q index)) :
    (∃ index x, xs[index]? = some x ∧ p index x) ↔ ∃ index < xs.length, q index := by
  constructor
  · rintro ⟨index, x, hget, hp⟩
    exact ⟨index, (List.getElem?_eq_some_iff.mp hget).1, (h index x hget).mp hp⟩
  · rintro ⟨index, hlt, hq⟩
    have hget : xs[index]? = some xs[index] := List.getElem?_eq_getElem hlt
    exact ⟨index, xs[index], hget, (h index _ hget).mpr hq⟩

/-! ## Elements of documents -/

theorem Number.isNaN_of_isFinite {n : Number} (h : n.isFinite = true) :
    n.toBinary64.isNaN = false := by
  cases n with
  | signed _ | unsigned _ => rfl
  | float x =>
      cases x with
      | nan => cases h
      | signed _ _ => rfl

namespace FieldValue

theorem isNaN_ofJson (place : Place) (json : Json) : (ofJson place json).isNaN = false := by
  cases json with
  | number n => exact Number.isNaN_of_isFinite (Number.isFinite_ofJson n)
  | _ => rfl

/-- What is read from a document is a member where it is strictly equal. -/
theorem sameValueZero_ofJson (place : Place) (json : Json) (v : FieldValue) :
    (ofJson place json).sameValueZero v = (ofJson place json).strictEq v := by
  rw [sameValueZero_eq, isNaN_ofJson, Bool.false_and, Bool.or_false]

end FieldValue

namespace Clause

/-! ## What the list clauses find -/

variable {place : Place} {items : List Json} {v : Operand}

theorem valueIncludes_array_iff :
    valueIncludes (.array place items) v = true
      ↔ ∃ index item, items[index]? = some item
        ∧ (FieldValue.ofJson (place.element index) item).strictEq v.toFieldValue = true := by
  simp only [← FieldValue.sameValueZero_ofJson]
  exact any_zipIdx_iff

theorem valueIncludesKey_array_iff {key : FieldPath} :
    valueIncludesKey (.array place items) key v = true
      ↔ ∃ index item, items[index]? = some item
        ∧ (key.resolveAt (place.element index) item).strictEq v.toFieldValue = true :=
  any_zipIdx_iff

/-- What is no list has no elements to search, and a part is looked for in a text alone. -/
theorem holdsOf_of_not_array {value : FieldValue}
    (h : ∀ place items, value ≠ .array place items) (field : FieldPath) (v : Operand) :
    (∀ key, (includesKey field key v).holdsOf value = false)
      ∧ ((includes field v).holdsOf value = true
        ↔ ∃ s, value = .string s ∧ s ≠ "" ∧ v.text.toList <:+: s.toList) := by
  cases value with
  | array place items => exact absurd rfl (h place items)
  | string s =>
      simp [holdsOf, valueIncludes, valueIncludesKey, FieldValue.isTruthy, Text.contains,
        Text.occursIn_iff]
  | _ => simp [holdsOf, valueIncludes, valueIncludesKey]

/-- **The clauses on lists compare elements.** Where a field has a list, the list includes a
literal exactly if one of its elements is strictly equal to it, each compared by the path that
goes on to it by its index; and it includes the literal under a key exactly if what the path
of an element goes on to by the key is strictly equal to it. Where a field has no list, nothing
is found under a key, and a literal is included exactly in a text that is not empty and has
the text of the literal for a part. -/
theorem matchesRecord_iff_exists_element (field : FieldPath) (v : Operand) (record : Json) :
    (∀ place items, field.resolve record = .array place items →
      ((includes field v).matchesRecord record = true
        ↔ ∃ index < items.length,
          (compare (field.element index) .strictEq v).matchesRecord record = true)
      ∧ ∀ key, (includesKey field key v).matchesRecord record = true
        ↔ ∃ index < items.length,
          (compare ((field.element index).join key) .strictEq v).matchesRecord record = true)
    ∧ ((∀ place items, field.resolve record ≠ .array place items) →
      (∀ key, (includesKey field key v).matchesRecord record = false)
      ∧ ((includes field v).matchesRecord record = true
        ↔ ∃ s, field.resolve record = .string s ∧ s ≠ "" ∧ v.text.toList <:+: s.toList)) := by
  refine ⟨fun place items hlist => ⟨?_, fun key => ?_⟩, fun hnolist =>
    holdsOf_of_not_array hnolist field v⟩
  · have hclause : (includes field v).matchesRecord record
        = valueIncludes (.array place items) v := by
      rw [matchesRecord, Clause.field, hlist]
      rfl
    rw [hclause, valueIncludes_array_iff]
    refine exists_getElem?_iff fun index item hitem => ?_
    rw [matchesRecord, Clause.field, FieldPath.resolve_element hlist hitem]
    rfl
  · have hclause : (includesKey field key v).matchesRecord record
        = valueIncludesKey (.array place items) key v := by
      rw [matchesRecord, Clause.field, hlist]
      rfl
    rw [hclause, valueIncludesKey_array_iff]
    refine exists_getElem?_iff fun index item hitem => ?_
    rw [matchesRecord, Clause.field, FieldPath.resolve_element_join hlist hitem]
    rfl

/-- Under the key `length` there are the units of a text and the elements of a list, and a float
is found by an integer of the same value. No element is `nan`, nothing is not `null`, and of
a text the text of a number is a part. -/
theorem matchesRecord_iff_exists_element_length :
    let items : List Json := [.null, .string "😀", .array [.null, .bool true],
      .number (.float (.ofInt 3) (by decide +kernel))]
    let record : Json := .object [("a", .array items), ("s", .string "-2.5")]
    let list : FieldPath := ⟨"a"⟩
    let text : FieldPath := ⟨"s"⟩
    let key : FieldPath := ⟨"length"⟩
    let two : Operand := .number (.signed 2)
    let three : Operand := .number (.unsigned 3)
    let nan : Operand := .number (.float .nan)
    let found (c : Clause) : Prop := c.matchesRecord record = true
    list.resolve record = .array ((Place.root 0).member "a") items
      ∧ (found (includes list three)
        ∧ ∃ index < items.length, found (compare (list.element index) .strictEq three))
      ∧ (¬ found (includes list nan)
        ∧ ¬ ∃ index < items.length, found (compare (list.element index) .strictEq nan))
      ∧ (found (includesKey list key two)
        ∧ ∃ index < items.length, found (compare ((list.element index).join key) .strictEq two))
      ∧ (¬ found (includesKey list key .null)
        ∧ ¬ ∃ index < items.length, found (compare ((list.element index).join key) .strictEq .null))
      ∧ (∀ place items, text.resolve record ≠ .array place items)
      ∧ (includesKey text key two).matchesRecord record = false
      ∧ found (includes text two) := by
  intro items record list text key two three nan found
  have hlist : list.resolve record = .array ((Place.root 0).member "a") items := by decide
  have htext : text.resolve record = .string "-2.5" := by decide
  have hnolist : ∀ place items, text.resolve record ≠ .array place items := by
    rw [htext]
    nofun
  have hincludes (v : Operand) := ((matchesRecord_iff_exists_element list v record).1 _ _ hlist).1
  have hkeyed (v : Operand) := ((matchesRecord_iff_exists_element list v record).1 _ _ hlist).2 key
  obtain ⟨hnokey, hpart⟩ := (matchesRecord_iff_exists_element text two record).2 hnolist
  have hthree : found (includes list three) := by decide +kernel
  have hnan : ¬ found (includes list nan) := by decide +kernel
  have htwo : found (includesKey list key two) := by decide +kernel
  have hnull : ¬ found (includesKey list key .null) := by decide +kernel
  exact ⟨hlist, ⟨hthree, (hincludes three).mp hthree⟩, ⟨hnan, mt (hincludes nan).mpr hnan⟩,
    ⟨htwo, (hkeyed two).mp htwo⟩, ⟨hnull, mt (hkeyed .null).mpr hnull⟩, hnolist, hnokey key,
    hpart.mpr ⟨"-2.5", htext, by decide, by decide⟩⟩

end Clause

end RecordQuery
