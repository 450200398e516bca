import Mathlib.Data.List.TakeWhile
import Mathlib.Tactic.ByContra
import RecordQuery.Decimal.Layout

/-!
# Decimals that are naturals

A decimal whose exponent is not negative denotes a natural (`natural`), and
if it is not written with an exponent, it is written as the natural is
(`write_eq_digitsOf_natural`): the zeros that layout leaves out at the end
of its digits are the first of those that it fills up with. The text of an
integer is its own (`integerText_inj`).
-/

namespace RecordQuery.Decimal

/-! ## Digits -/

theorem digitsOf_mul_ten_pow {n : Nat} (h : 0 < n) (k : Nat) :
    digitsOf (n * 10 ^ k) = digitsOf n ++ List.replicate k '0' := by
  induction k with
  | zero => rw [Nat.pow_zero, Nat.mul_one, List.replicate_zero, List.append_nil]
  | succ k ih =>
      have hpos : 0 < n * 10 ^ k := Nat.mul_pos h (Nat.pow_pos (by decide))
      have hstep := Nat.toDigits_append_toDigits (b := 10) (by decide) hpos (d := 0) (by decide)
      rw [Nat.toDigits_zero, Nat.add_zero, Nat.mul_comm 10, Nat.mul_assoc, ← Nat.pow_succ] at hstep
      calc digitsOf (n * 10 ^ (k + 1)) = digitsOf (n * 10 ^ k) ++ ['0'] := hstep.symm
        _ = digitsOf n ++ List.replicate (k + 1) '0' := by
            rw [ih, List.append_assoc, List.replicate_succ']

theorem length_digitsOf_mul_ten_pow {n : Nat} (h : 0 < n) (k : Nat) :
    (digitsOf (n * 10 ^ k)).length = (digitsOf n).length + k := by
  rw [digitsOf_mul_ten_pow h, List.length_append, List.length_replicate]

theorem length_digitsOf_pos (n : Nat) : 0 < (digitsOf n).length :=
  Nat.length_toDigits_pos

theorem length_digitsOf_le_iff {n k : Nat} (h : 0 < k) :
    (digitsOf n).length ≤ k ↔ n < 10 ^ k :=
  Nat.length_toDigits_le_iff (by decide) h

/-- A natural is not below the power of ten that has as many digits. -/
theorem ten_pow_le {n k : Nat} (h : 0 < n) (hk : k < (digitsOf n).length) : 10 ^ k ≤ n := by
  by_contra hlt
  rcases Nat.eq_zero_or_pos k with rfl | hpos
  · omega
  · have hlength := (length_digitsOf_le_iff hpos).mpr (Nat.lt_of_not_le hlt)
    omega

theorem digitsOf_inj {m n : Nat} (h : digitsOf m = digitsOf n) : m = n := by
  rw [← ofDigits_digitsOf m, h, ofDigits_digitsOf]

/-- What is left out of the digits of a natural are zeros. -/
theorem exists_digitsOf_eq_significant_append (n : Nat) :
    ∃ zeros, digitsOf n = significant n ++ List.replicate zeros '0' := by
  have hzeros : ∀ c ∈ (digitsOf n).reverse.takeWhile (· == '0'), c = '0' := fun c hc =>
    beq_iff_eq.mp (List.mem_takeWhile_imp (p := (· == '0')) hc)
  refine ⟨((digitsOf n).reverse.takeWhile (· == '0')).length, ?_⟩
  calc digitsOf n
      = ((digitsOf n).reverse.takeWhile (· == '0')
          ++ (digitsOf n).reverse.dropWhile (· == '0')).reverse := by
        rw [List.takeWhile_append_dropWhile, List.reverse_reverse]
    _ = significant n ++ ((digitsOf n).reverse.takeWhile (· == '0')).reverse := by
        rw [List.reverse_append, significant]
    _ = significant n
          ++ List.replicate ((digitsOf n).reverse.takeWhile (· == '0')).length '0' := by
        rw [List.append_cancel_left_eq, List.reverse_eq_iff, List.reverse_replicate]
        exact List.eq_replicate_iff.mpr ⟨rfl, hzeros⟩

/-! ## Decimals without a fraction -/

/-- The natural that a decimal denotes whose exponent is not negative. -/
def natural (d : Decimal) : Nat :=
  d.coefficient * 10 ^ d.exponent.toNat

theorem point_eq {d : Decimal} (hcoefficient : 0 < d.coefficient) (hexponent : 0 ≤ d.exponent) :
    d.point = (digitsOf d.natural).length := by
  rw [point, natural, length_digitsOf_mul_ten_pow hcoefficient]
  omega

/-- A natural is written as it is by every layout that has no exponent for one so long. -/
theorem write_eq_digitsOf_natural {layout : Layout} {d : Decimal} (hcoefficient : 0 < d.coefficient)
    (hexponent : 0 ≤ d.exponent) (hfirst : layout.firstPoint ≤ 1)
    (hlast : (digitsOf d.natural).length ≤ layout.lastPoint) :
    d.write layout = digitsOf d.natural := by
  obtain ⟨zeros, hdigits⟩ := exists_digitsOf_eq_significant_append d.coefficient
  have hnatural : digitsOf d.natural
      = significant d.coefficient ++ List.replicate (zeros + d.exponent.toNat) '0' := by
    rw [natural, digitsOf_mul_ten_pow hcoefficient, hdigits, List.append_assoc,
      List.replicate_append_replicate]
  have hlength := congrArg List.length hnatural
  rw [List.length_append, List.length_replicate] at hlength
  have hpos := length_digitsOf_pos d.natural
  have hpoint := point_eq hcoefficient hexponent
  have hplain : (layout.firstPoint ≤ d.point && d.point ≤ layout.lastPoint) = true := by
    rw [Bool.and_eq_true, decide_eq_true_eq, decide_eq_true_eq]
    omega
  rw [write, if_pos hplain, positional, if_neg (by omega), if_neg (by omega), hnatural]
  congr 2
  omega

/-! ## Texts of integers -/

theorem integerText_inj {m n : Int} : integerText m = integerText n ↔ m = n := by
  refine ⟨fun h => ?_, congrArg integerText⟩
  have hminus : ∀ k l : Nat, '-' :: digitsOf k ≠ digitsOf l := by
    intro k l heq
    have hdigit := Nat.isDigit_of_mem_toDigits (b := 10) (by decide) (by decide)
      (heq ▸ List.mem_cons_self : '-' ∈ digitsOf l)
    exact absurd hdigit (by decide)
  rw [integerText, integerText, String.ofList_inj] at h
  split at h <;> split at h
  · have habs := digitsOf_inj (List.cons.inj h).2
    omega
  · exact absurd h (hminus _ _)
  · exact absurd h.symm (hminus _ _)
  · have habs := digitsOf_inj h
    omega

end RecordQuery.Decimal
