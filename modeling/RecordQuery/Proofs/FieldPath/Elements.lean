import RecordQuery.Decimal.Basic
import RecordQuery.Proofs.FieldPath.Composition

/-!
# Paths to elements

A path goes on to an element of a list by its index, written in decimal
(`element`). The digits have no dot among them, so they are one segment, and
they are read as the index that they were written for. So the path leads to
the element where it stands (`resolve_element`), and a key behind it leads to
what the key leads to from there (`resolve_element_join`).
-/

namespace RecordQuery

/-! ## Digits -/

theorem Text.readRow?_of_isDigit : ∀ {digits : List Char} (before : Nat),
    (∀ c ∈ digits, c.isDigit = true) →
      readRow? 10 before digits = some (Nat.ofDigitChars 10 digits before)
  | [], _, _ => rfl
  | c :: digits, before, h => by
      obtain ⟨hc, hdigits⟩ := List.forall_mem_cons.mp h
      have hvalue : digitValue? c = some (c.toNat - '0'.toNat) := if_pos hc
      have hlt : c.toNat - '0'.toNat < 10 := by
        have hle : c.toNat ≤ 57 := (Char.isDigit_iff_toNat.mp hc).2
        have hzero : '0'.toNat = 48 := rfl
        omega
      rw [readRow?, hvalue]
      dsimp only
      rw [if_pos hlt, readRow?_of_isDigit _ hdigits, Nat.ofDigitChars_cons]

namespace FieldPath

open Decimal (digitsOf)

/-- An index is read as it was written. -/
theorem readIndex?_digitsOf (index : Nat) :
    readIndex? (String.ofList (digitsOf index)) = some index := by
  have hdigits : ∀ c ∈ digitsOf index, c.isDigit = true := fun c hc =>
    Nat.isDigit_of_mem_toDigits (by decide) (by decide) hc
  have hrow : Text.dropPlus (digitsOf index) = digitsOf index := by
    unfold Text.dropPlus
    split
    · rename_i rest hplus
      exact absurd (hdigits '+' (hplus ▸ List.mem_cons_self)) (by decide)
    · rfl
  have hempty : (digitsOf index).isEmpty = false :=
    List.isEmpty_eq_false_iff.mpr Nat.toDigits_ne_nil
  rw [readIndex?, String.toList_ofList, Text.readNatural?, hrow, hempty,
    if_neg Bool.false_ne_true, Text.readRow?_of_isDigit 0 hdigits]
  exact congrArg some (Decimal.ofDigits_digitsOf index)

/-! ## Elements -/

/-- A text without dots is its own only part. -/
theorem splitDots_of_not_mem : ∀ {text : List Char}, '.' ∉ text → splitDots text = [text]
  | [], _ => rfl
  | c :: rest, h => by
      have hc : c ≠ '.' := fun heq => h (heq ▸ List.mem_cons_self)
      rw [splitDots, if_neg hc, splitDots_of_not_mem (List.not_mem_of_not_mem_cons h)]

/-- The path to an element of the list that a path leads to. -/
def element (path : FieldPath) (index : Nat) : FieldPath :=
  path.join ⟨String.ofList (digitsOf index)⟩

theorem segments_digitsOf (index : Nat) :
    (⟨String.ofList (digitsOf index)⟩ : FieldPath).segments
      = [String.ofList (digitsOf index)] := by
  have hdot : '.' ∉ digitsOf index := fun hmem =>
    absurd (Nat.isDigit_of_mem_toDigits (by decide) (by decide) hmem) (by decide)
  rw [segments, String.toList_ofList, splitDots_of_not_mem hdot, List.map_singleton]

variable {field : FieldPath} {record : Json} {place : Place} {items : List Json} {index : Nat}
  {item : Json}

theorem resolve_element (h : field.resolve record = .array place items)
    (hitem : items[index]? = some item) :
    (field.element index).resolve record = .ofJson (place.element index) item := by
  have hgo : (field.element index).resolve record
      = resolveSegments place (.array items) [String.ofList (digitsOf index)] := by
    rw [element, resolve_join_eq_goOn, h, segments_digitsOf]
    rfl
  rw [hgo, resolveSegments, readIndex?_digitsOf]
  dsimp only
  rw [hitem]
  rfl

/-- Behind an element a key leads to what it leads to from the element. -/
theorem resolve_element_join (h : field.resolve record = .array place items)
    (hitem : items[index]? = some item) (key : FieldPath) :
    ((field.element index).join key).resolve record
      = key.resolveAt (place.element index) item := by
  rw [resolve_join_eq_goOn, resolve_element h hitem]
  exact FieldValue.goOn_ofJson _ item key.segments_ne_nil

end FieldPath

end RecordQuery
