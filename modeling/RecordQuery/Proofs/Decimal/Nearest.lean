import RecordQuery.Proofs.Binary64.Nearest
import RecordQuery.Proofs.Decimal.Natural

/-!
# Decimals are rounded to the nearest number

The number that a decimal stands for (`value`), and that the binary64 number
of the decimal is the nearest one, whatever its magnitude
(`toBinary64_eq_ofRank`). Where the point falls bounds the value between two
powers of ten, so a decimal that is not computed with at all, because its
point lies too far on either side, is beyond every finite magnitude, or
below half the smallest.
-/

namespace RecordQuery.Decimal

open Binary64

/-- The number that a decimal stands for. -/
def value (d : Decimal) : ℚ :=
  d.coefficient * (10 : ℚ) ^ d.exponent

/-- A power of ten with any exponent as a ratio of two naturals. -/
theorem ten_zpow_eq (exponent : Int) :
    (10 : ℚ) ^ exponent = (10 : ℚ) ^ exponent.toNat / (10 : ℚ) ^ (-exponent).toNat := by
  rw [← zpow_natCast, ← zpow_natCast, ← zpow_sub₀ (by norm_num)]
  congr 1
  omega

theorem value_eq_ratio (d : Decimal) :
    d.value = ((d.coefficient * 10 ^ d.exponent.toNat : Nat) : ℚ)
      / (10 ^ (-d.exponent).toNat : Nat) := by
  rw [value, ten_zpow_eq]
  push_cast
  rw [mul_div_assoc]

/-! ## Bounds by the point -/

theorem value_lt (d : Decimal) : d.value < (10 : ℚ) ^ d.point := by
  have hdigits : d.coefficient < 10 ^ (digitsOf d.coefficient).length :=
    (length_digitsOf_le_iff (length_digitsOf_pos _)).mp le_rfl
  have hcoefficient : (d.coefficient : ℚ) < (10 : ℚ) ^ ((digitsOf d.coefficient).length : Int) := by
    rw [zpow_natCast]
    exact_mod_cast hdigits
  rw [value, point, zpow_add₀ (by norm_num)]
  exact mul_lt_mul_of_pos_right hcoefficient (by positivity)

theorem le_value {d : Decimal} (h : d.coefficient ≠ 0) : (10 : ℚ) ^ (d.point - 1) ≤ d.value := by
  have hlength := length_digitsOf_pos d.coefficient
  have hdigits : 10 ^ ((digitsOf d.coefficient).length - 1) ≤ d.coefficient :=
    ten_pow_le (Nat.pos_of_ne_zero h) (by omega)
  have hcoefficient :
      (10 : ℚ) ^ (((digitsOf d.coefficient).length - 1 : Nat) : Int) ≤ d.coefficient := by
    rw [zpow_natCast]
    exact_mod_cast hdigits
  have hpoint : d.point - 1 = (((digitsOf d.coefficient).length - 1 : Nat) : Int) + d.exponent := by
    unfold point
    omega
  rw [value, hpoint, zpow_add₀ (by norm_num)]
  exact mul_le_mul_of_nonneg_right hcoefficient (by positivity)

/-! ## Rounding -/

theorem magnitude_infinityRank : magnitude infinityRank = (2 : ℚ) ^ 1024 := by
  have hplaced : IsPlaced 972 (2 ^ 52) := ⟨by decide, by decide, Or.inl le_rfl⟩
  have hrank : infinityRank = placedRank 972 (2 ^ 52) := by decide
  rw [hrank, hplaced.magnitude_eq, Nat.cast_pow, Nat.cast_ofNat, ← zpow_natCast,
    ← zpow_add₀ two_ne_zero, ← zpow_natCast]
  rfl

theorem magnitude_one : magnitude 1 = (2 : ℚ) ^ (-1074 : Int) := by
  simp [magnitude, significand, lastPlace]

theorem two_pow_le_ten_pow {m n : Nat} (h : 2 ^ m ≤ 10 ^ n) : (2 : ℚ) ^ m ≤ (10 : ℚ) ^ n := by
  exact_mod_cast h

/-- A decimal with a long whole part is nearest to no finite magnitude. -/
theorem infinityRank_le {d : Decimal} {rank : Nat} (hcoefficient : d.coefficient ≠ 0)
    (hpoint : 310 < d.point) (h : IsNearest d.value rank) : infinityRank ≤ rank := by
  refine (isNearest_magnitude infinityRank).le_of_le h ?_
  calc magnitude infinityRank = (2 : ℚ) ^ 1024 := magnitude_infinityRank
    _ ≤ (10 : ℚ) ^ 310 := two_pow_le_ten_pow (by decide +kernel)
    _ = (10 : ℚ) ^ (310 : Int) := (zpow_ofNat _ _).symm
    _ ≤ (10 : ℚ) ^ (d.point - 1) := zpow_le_zpow_right₀ (by norm_num) (by omega)
    _ ≤ d.value := le_value hcoefficient

/-- A decimal with many zeros behind its point is nearest to zero. -/
theorem isNearest_zero {d : Decimal} (hpoint : d.point < -330) : IsNearest d.value 0 := by
  have hpowers : (2 : ℚ) ^ 1075 ≤ (10 : ℚ) ^ 330 := two_pow_le_ten_pow (by decide +kernel)
  have hsmall : 2 * d.value ≤ magnitude 1 := by
    calc 2 * d.value ≤ 2 * (10 : ℚ) ^ d.point := by linarith [value_lt d]
      _ ≤ 2 * (10 : ℚ) ^ (-330 : Int) :=
          mul_le_mul_of_nonneg_left (zpow_le_zpow_right₀ (by norm_num) (by omega)) (by norm_num)
      _ = 2 / (10 : ℚ) ^ 330 := by rw [zpow_neg, div_eq_mul_inv, zpow_ofNat]
      _ ≤ 1 / (2 : ℚ) ^ 1074 := by
          rw [div_le_div_iff₀ (by positivity) (by positivity), one_mul, ← pow_succ']
          exact hpowers
      _ = magnitude 1 := by rw [magnitude_one, zpow_neg, one_div, zpow_ofNat]
  refine isNearest_lower ?_ ?_ fun _ => rfl
  · rw [magnitude_zero, value]
    positivity
  · rw [magnitude_zero, zero_add]
    exact hsmall

/-- The rank nearest to the ratio that a decimal is. -/
theorem isNearest_value (d : Decimal) :
    IsNearest d.value
      (nearestRank (d.coefficient * 10 ^ d.exponent.toNat) (10 ^ (-d.exponent).toNat)) := by
  have hden : 10 ^ (-d.exponent).toNat ≠ 0 := pow_ne_zero _ (by decide)
  have hnearest := isNearest_nearestRank (d.coefficient * 10 ^ d.exponent.toNat) hden
  rwa [← value_eq_ratio] at hnearest

/-- **A decimal is rounded to the nearest number**, and to infinity if there is no finite one as
near. -/
theorem toBinary64_eq_ofRank {d : Decimal} {rank : Nat} (negative : Bool)
    (h : IsNearest d.value rank) : d.toBinary64 negative = ofRank negative rank := by
  rw [toBinary64]
  by_cases hcoefficient : d.coefficient = 0
  · have hzero : d.value = magnitude 0 := by
      rw [magnitude_zero, value, hcoefficient, Nat.cast_zero, zero_mul]
    rw [if_pos hcoefficient, h.unique (hzero ▸ isNearest_magnitude 0)]
  · rw [if_neg hcoefficient]
    by_cases hlong : 310 < d.point
    · rw [if_pos hlong, infinity, ofRank, ofRank]
      have hrank := infinityRank_le hcoefficient hlong h
      congr 2
      omega
    · rw [if_neg hlong]
      by_cases hshort : d.point < -330
      · rw [if_pos hshort, h.unique (isNearest_zero hshort)]
      · rw [if_neg hshort, ofRatio, h.unique (isNearest_value d)]

end RecordQuery.Decimal
