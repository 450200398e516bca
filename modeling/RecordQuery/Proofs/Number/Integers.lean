import RecordQuery.Number
import RecordQuery.Proofs.Binary64.IntegerText

/-!
# Integers among the numbers

The integer that a number holds, if it is no float. A comparison takes the
binary64 number nearest to it, and its text has all of its digits, whether
it is held with a sign or without. For the integers up to 2^53 in magnitude
these come to the same: their nearest number has their text
(`text_of_not_isLong`). A longer one and what is equal to it each show an
integer, and it need not be one (`exists_text_of_isLong`).
-/

namespace RecordQuery.Number

/-- The integer that a number holds in full. -/
def integer? : Number → Option Int
  | signed n => some n.toInt
  | unsigned n => some n.toNat
  | float _ => none

/-- The integer that the text of a number is: that of a float is its shortest decimal. -/
def shownInteger? : Number → Option Int
  | signed n => some n.toInt
  | unsigned n => some n.toNat
  | float x => x.shownInteger?

/-- The number holds an integer beyond 2^53 in magnitude, where other integers have the same
nearest number. -/
def isLong (a : Number) : Bool :=
  a.integer?.any fun m => 2 ^ 53 < m.natAbs

section

variable {a : Number} {m : Int}

theorem toBinary64_of_integer (h : a.integer? = some m) : a.toBinary64 = Binary64.ofInt m := by
  cases a with
  | signed n | unsigned n =>
      obtain rfl := Option.some.inj h
      rfl
  | float x => cases h

theorem text_of_integer (h : a.integer? = some m) : a.text = Decimal.integerText m := by
  cases a with
  | signed n | unsigned n =>
      obtain rfl := Option.some.inj h
      rfl
  | float x => cases h

theorem shownInteger?_of_integer (h : a.integer? = some m) : a.shownInteger? = some m := by
  cases a with
  | signed n | unsigned n => exact h
  | float x => cases h

theorem natAbs_le_of_integer (h : a.integer? = some m) : m.natAbs ≤ 2 ^ 64 := by
  cases a with
  | signed n =>
      obtain rfl := Option.some.inj h
      have hlow := n.le_toInt
      have hhigh := n.toInt_lt
      omega
  | unsigned n =>
      obtain rfl := Option.some.inj h
      have hhigh := n.toNat_lt
      omega
  | float x => cases h

theorem isLong_eq_true_iff : a.isLong = true ↔ ∃ m, a.integer? = some m ∧ 2 ^ 53 < m.natAbs := by
  simp only [isLong, Option.any_eq_true, decide_eq_true_eq]

end

/-- The text of a number that is not long is that of the number that comparisons take. -/
theorem text_of_not_isLong {a : Number} (h : a.isLong = false) : a.text = a.toBinary64.text := by
  cases hinteger : a.integer? with
  | none =>
      cases a with
      | signed n | unsigned n => cases hinteger
      | float x => rfl
  | some m =>
      have hshort : m.natAbs ≤ 2 ^ 53 := by
        simpa [isLong, hinteger] using h
      rw [text_of_integer hinteger, toBinary64_of_integer hinteger, Binary64.text_ofInt hshort]

/-- What is equal to a long integer shows an integer. -/
theorem exists_text_of_isLong {a b : Number} (ha : a.isLong = true)
    (h : b.toBinary64.eq a.toBinary64 = true) :
    ∃ k, b.shownInteger? = some k ∧ b.text = Decimal.integerText k := by
  obtain ⟨m, hm, hlong⟩ := isLong_eq_true_iff.mp ha
  have hne : m ≠ 0 := by omega
  cases b with
  | signed n | unsigned n => exact ⟨_, rfl, rfl⟩
  | float x =>
      rw [toBinary64_of_integer hm] at h
      rcases Binary64.eq_or_key?_of_eq h with hx | ⟨-, hzero⟩
      · obtain ⟨k, hk, -, htext⟩ := Binary64.exists_text_ofInt hne (natAbs_le_of_integer hm)
        rw [← hx] at hk htext
        exact ⟨k, hk, htext⟩
      · rw [Binary64.key?_ofInt] at hzero
        exact absurd (Option.some.inj hzero) (Binary64.integerKey_ne_zero hne)

end RecordQuery.Number
