import Mathlib.Data.List.Induction
import RecordQuery.Text.Natural

/-!
# Hexadecimal digits in text

A row of hexadecimal digits and the natural that it denotes, said by the
place of each digit among the sixteen (`IsHexRow`), and that the reading
of naturals in this radix accepts exactly these rows
(`readRow?_sixteen_eq_some_iff`). Before a row it takes a plus sign too
(`readNatural?_sixteen_eq_some_iff`).
-/

namespace RecordQuery.Text

/-- The digit of a value below sixteen, with the letters in either case. -/
def IsHexDigit (c : Char) (value : Nat) : Prop :=
  "0123456789abcdef".toList[value]? = some c ∨ "0123456789ABCDEF".toList[value]? = some c

instance (c : Char) (value : Nat) : Decidable (IsHexDigit c value) :=
  inferInstanceAs (Decidable (_ ∨ _))

/-- One or more hexadecimal digits and the natural that they denote: a digit behind others adds its
value to sixteen times theirs. -/
inductive IsHexRow : List Char → Nat → Prop where
  | one {c : Char} {value : Nat} : IsHexDigit c value → IsHexRow [c] value
  | snoc {digits : List Char} {n : Nat} {c : Char} {value : Nat} : IsHexRow digits n →
      IsHexDigit c value → IsHexRow (digits ++ [c]) (16 * n + value)

theorem IsHexRow.ne_nil {digits : List Char} {n : Nat} (h : IsHexRow digits n) : digits ≠ [] := by
  cases h <;> simp

/-! ## Digits -/

theorem toNat_lt_of_digitValue? {c : Char} {value : Nat} (h : digitValue? c = some value) :
    c.toNat < 128 := by
  have hle : ∀ d : Char, d.toNat < 128 → c ≤ d → c.toNat < 128 := fun d hd hcd =>
    Nat.lt_of_le_of_lt hcd hd
  unfold digitValue? at h
  split at h
  · rename_i hdigit
    rw [Char.isDigit, Bool.and_eq_true, decide_eq_true_eq, decide_eq_true_eq] at hdigit
    exact hle '9' (by decide) hdigit.2
  · split at h
    · rename_i hletter
      exact hle 'z' (by decide) hletter.2
    · split at h
      · rename_i hletter
        exact hle 'Z' (by decide) hletter.2
      · cases h

theorem IsHexDigit.value_lt {c : Char} {value : Nat} (h : IsHexDigit c value) : value < 16 := by
  rcases h with h | h <;> exact (List.getElem?_eq_some_iff.mp h).1

theorem IsHexDigit.digitValue?_eq {c : Char} {value : Nat} (h : IsHexDigit c value) :
    digitValue? c = some value := by
  have hsmall : ∀ entry ∈ "0123456789abcdef".toList.zipIdx,
      digitValue? entry.1 = some entry.2 := by decide
  have hcapital : ∀ entry ∈ "0123456789ABCDEF".toList.zipIdx,
      digitValue? entry.1 = some entry.2 := by decide
  rcases h with h | h
  · exact hsmall (c, value) (List.mk_mem_zipIdx_iff_getElem?.mpr h)
  · exact hcapital (c, value) (List.mk_mem_zipIdx_iff_getElem?.mpr h)

/-- Below sixteen, the value of a digit is its place among the sixteen. -/
theorem digitValue?_eq_some_iff {c : Char} {value : Nat} :
    digitValue? c = some value ∧ value < 16 ↔ IsHexDigit c value := by
  refine ⟨fun ⟨hdigit, hvalue⟩ => ?_, fun h => ⟨h.digitValue?_eq, h.value_lt⟩⟩
  have htable : ∀ code < 128, ∀ value ∈ digitValue? (Char.ofNat code), value < 16 →
      IsHexDigit (Char.ofNat code) value := by
    decide +kernel
  have hentry := htable c.toNat (toNat_lt_of_digitValue? hdigit)
  rw [Char.ofNat_toNat] at hentry
  exact hentry value hdigit hvalue

/-! ## Rows -/

theorem readRow?_cons (radix before : Nat) (c : Char) (digits : List Char) :
    readRow? radix before (c :: digits)
      = ((digitValue? c).filter (· < radix)).bind fun value =>
          readRow? radix (radix * before + value) digits := by
  rw [readRow?]
  cases digitValue? c with
  | none => rfl
  | some value => by_cases hvalue : value < radix <;> simp [Option.filter, hvalue]

theorem readRow?_append (radix before : Nat) (first second : List Char) :
    readRow? radix before (first ++ second)
      = (readRow? radix before first).bind fun n => readRow? radix n second := by
  induction first generalizing before with
  | nil => rfl
  | cons c first ih => simp only [List.cons_append, readRow?_cons, ih, Option.bind_assoc]

theorem readRow?_singleton_eq_some_iff {radix before n : Nat} {c : Char} :
    readRow? radix before [c] = some n
      ↔ ∃ value, (digitValue? c = some value ∧ value < radix) ∧ n = radix * before + value := by
  rw [readRow?_cons, Option.bind_eq_some_iff]
  refine exists_congr fun value => ?_
  rw [Option.filter_eq_some_iff, decide_eq_true_eq, readRow?, Option.some.injEq, eq_comm (a := n)]

/-- Reading accepts exactly the rows of hexadecimal digits. -/
theorem readRow?_sixteen_eq_some_iff {digits : List Char} {n : Nat} :
    digits ≠ [] ∧ readRow? 16 0 digits = some n ↔ IsHexRow digits n := by
  constructor
  · rintro ⟨hne, hread⟩
    induction digits using List.reverseRecOn generalizing n with
    | nil => exact absurd rfl hne
    | append_singleton digits c ih =>
        rw [readRow?_append, Option.bind_eq_some_iff] at hread
        obtain ⟨before, hbefore, hlast⟩ := hread
        obtain ⟨value, hvalue, rfl⟩ := readRow?_singleton_eq_some_iff.mp hlast
        have hdigit := digitValue?_eq_some_iff.mp hvalue
        by_cases hnil : digits = []
        · subst hnil
          obtain rfl : 0 = before := Option.some.inj hbefore
          rw [Nat.mul_zero, Nat.zero_add]
          exact .one hdigit
        · exact .snoc (ih hnil hbefore) hdigit
  · intro h
    refine ⟨h.ne_nil, ?_⟩
    induction h with
    | one hdigit =>
        exact readRow?_singleton_eq_some_iff.mpr
          ⟨_, digitValue?_eq_some_iff.mpr hdigit, by rw [Nat.mul_zero, Nat.zero_add]⟩
    | snoc _ hdigit ih =>
        rw [readRow?_append, ih]
        exact readRow?_singleton_eq_some_iff.mpr ⟨_, digitValue?_eq_some_iff.mpr hdigit, rfl⟩

theorem IsHexRow.unique {digits : List Char} {m n : Nat} (hm : IsHexRow digits m)
    (hn : IsHexRow digits n) : m = n :=
  Option.some.inj ((readRow?_sixteen_eq_some_iff.mpr hm).2.symm.trans
    (readRow?_sixteen_eq_some_iff.mpr hn).2)

theorem IsHexRow.head_ne_plus {digits : List Char} {n : Nat} (h : IsHexRow ('+' :: digits) n) :
    False := by
  have hread := (readRow?_sixteen_eq_some_iff.mpr h).2
  cases hread

/-- What is read as a natural is a row of digits, which a plus sign may precede. -/
theorem readNatural?_sixteen_eq_some_iff {text : List Char} {n : Nat} :
    readNatural? 16 text = some n
      ↔ IsHexRow text n ∨ ∃ digits, text = '+' :: digits ∧ IsHexRow digits n := by
  have hrow : ∀ row : List Char,
      (if row.isEmpty then none else readRow? 16 0 row) = some n ↔ IsHexRow row n := by
    intro row
    rw [← readRow?_sixteen_eq_some_iff, Option.ite_none_left_eq_some, List.isEmpty_iff]
  rw [readNatural?, hrow]
  unfold dropPlus
  split
  · rename_i rest
    constructor
    · intro h
      exact Or.inr ⟨rest, rfl, h⟩
    · rintro (h | ⟨digits, hdigits, h⟩)
      · exact h.head_ne_plus.elim
      · rwa [List.cons.inj hdigits |>.2]
  · rename_i hplus
    constructor
    · exact Or.inl
    · rintro (h | ⟨digits, rfl, -⟩)
      · exact h
      · exact absurd rfl (hplus digits)

end RecordQuery.Text
