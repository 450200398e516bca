import Mathlib.Algebra.Order.Ring.Abs
import Mathlib.Tactic.FieldSimp
import Mathlib.Tactic.NormNum
import RecordQuery.Proofs.Binary64.Magnitude

/-!
# Rounding is to the nearest magnitude

A rank is nearest to a rational number if no magnitude is nearer to it than
that of the rank, and if the rank is even should another be as near
(`IsNearest`). There is one such rank for a number, and a greater number
never has a lesser one (`IsNearest.le_of_le`). Rounding finds it for every
ratio of naturals (`isNearest_nearestRank`): the ratio lies between the
magnitudes of two neighbouring ranks, and the lower of them is the whole
part of the ratio in units of its last place.
-/

namespace RecordQuery.Binary64

/-- The magnitude of the rank is nearest to a number; of two as near it is that of the even
rank. -/
structure IsNearest (q : ℚ) (rank : Nat) : Prop where
  nearest : ∀ other, |magnitude rank - q| ≤ |magnitude other - q|
  even_of_tie : ∀ other, other ≠ rank →
    |magnitude other - q| = |magnitude rank - q| → rank % 2 = 0

/-! ## Order of the nearest ranks -/

/-- The greater of two numbers is as near to a third as the other if that is not below the middle
between them. -/
theorem abs_sub_le_abs_sub_iff {a b q : ℚ} (h : a < b) :
    |b - q| ≤ |a - q| ↔ a + b ≤ 2 * q := by
  rw [← sq_le_sq]
  constructor <;> intro hle <;> nlinarith

theorem abs_sub_le_abs_sub_iff' {a b q : ℚ} (h : a < b) :
    |a - q| ≤ |b - q| ↔ 2 * q ≤ a + b := by
  rw [← sq_le_sq]
  constructor <;> intro hle <;> nlinarith

/-- A greater number has no lesser rank. Were it so, both numbers would be the middle between
the two ranks, which then are even, and a rank between them would be nearer. -/
theorem IsNearest.le_of_le {p q : ℚ} {r s : Nat} (hr : IsNearest p r) (hs : IsNearest q s)
    (h : p ≤ q) : r ≤ s := by
  by_contra hlt
  have hlt : s < r := Nat.lt_of_not_le hlt
  have hmagnitude := magnitude_strictMono hlt
  have hp := (abs_sub_le_abs_sub_iff hmagnitude).mp (hr.nearest s)
  have hq := (abs_sub_le_abs_sub_iff' hmagnitude).mp (hs.nearest r)
  obtain rfl : p = q := by linarith
  have htie : |magnitude s - p| = |magnitude r - p| :=
    le_antisymm (hs.nearest r) (hr.nearest s)
  have hodd : s + 1 < r := by
    have hreven := hr.even_of_tie s (by omega) htie
    have hseven := hs.even_of_tie r (by omega) htie.symm
    omega
  have hbetween := (abs_sub_le_abs_sub_iff (magnitude_strictMono hodd)).mp (hr.nearest (s + 1))
  have hnext := magnitude_strictMono (Nat.lt_succ_self s)
  rw [Nat.succ_eq_add_one] at hnext
  linarith

theorem IsNearest.unique {q : ℚ} {r s : Nat} (hr : IsNearest q r) (hs : IsNearest q s) : r = s :=
  le_antisymm (hr.le_of_le hs le_rfl) (hs.le_of_le hr le_rfl)

/-! ## Numbers between two neighbouring ranks -/

/-- Not above the middle between two neighbours, the lower one is nearest. -/
theorem isNearest_lower {q : ℚ} {rank : Nat} (hle : magnitude rank ≤ q)
    (hmiddle : 2 * q ≤ magnitude rank + magnitude (rank + 1))
    (heven : 2 * q = magnitude rank + magnitude (rank + 1) → rank % 2 = 0) :
    IsNearest q rank := by
  have hbelow : ∀ other < rank, |magnitude rank - q| < |magnitude other - q| := by
    intro other hother
    have hmagnitude := magnitude_strictMono hother
    rw [abs_sub_comm, abs_sub_comm (magnitude other), abs_of_nonneg (by linarith),
      abs_of_nonneg (by linarith)]
    linarith
  have habove : ∀ other, rank < other → magnitude (rank + 1) ≤ magnitude other :=
    fun other hother => magnitude_strictMono.monotone hother
  constructor
  · intro other
    rcases Nat.lt_trichotomy other rank with hother | rfl | hother
    · exact (hbelow other hother).le
    · exact le_rfl
    · refine (abs_sub_le_abs_sub_iff' (magnitude_strictMono hother)).mpr ?_
      linarith [habove other hother]
  · intro other hne htie
    rcases Nat.lt_or_gt_of_ne hne with hother | hother
    · exact absurd htie (hbelow other hother).ne'
    · have hlow := (abs_sub_le_abs_sub_iff (magnitude_strictMono hother)).mp htie.le
      exact heven (by linarith [habove other hother])

/-- Not below the middle between two neighbours, the upper one is nearest. -/
theorem isNearest_upper {q : ℚ} {rank : Nat} (hle : q ≤ magnitude (rank + 1))
    (hmiddle : magnitude rank + magnitude (rank + 1) ≤ 2 * q)
    (heven : 2 * q = magnitude rank + magnitude (rank + 1) → (rank + 1) % 2 = 0) :
    IsNearest q (rank + 1) := by
  have habove : ∀ other, rank + 1 < other →
      |magnitude (rank + 1) - q| < |magnitude other - q| := by
    intro other hother
    have hmagnitude := magnitude_strictMono hother
    rw [abs_of_nonneg (by linarith), abs_of_nonneg (by linarith)]
    linarith
  have hbelow : ∀ other < rank + 1, magnitude other ≤ magnitude rank :=
    fun other hother => magnitude_strictMono.monotone (Nat.le_of_lt_succ hother)
  constructor
  · intro other
    rcases Nat.lt_trichotomy other (rank + 1) with hother | rfl | hother
    · refine (abs_sub_le_abs_sub_iff (magnitude_strictMono hother)).mpr ?_
      linarith [hbelow other hother]
    · exact le_rfl
    · exact (habove other hother).le
  · intro other hne htie
    rcases Nat.lt_or_gt_of_ne hne with hother | hother
    · have hhigh := (abs_sub_le_abs_sub_iff' (magnitude_strictMono hother)).mp htie.le
      exact heven (by linarith [hbelow other hother])
    · exact absurd htie (habove other hother).ne'

/-- A magnitude is nearest to itself. -/
theorem isNearest_magnitude (rank : Nat) : IsNearest (magnitude rank) rank := by
  have hnext := magnitude_strictMono (Nat.lt_succ_self rank)
  rw [Nat.succ_eq_add_one] at hnext
  exact isNearest_lower le_rfl (by linarith) (fun heq => by linarith)

/-! ## Rounding -/

/-- A ratio is rounded to its whole part or to one more, and to an even one from the middle. -/
theorem roundHalfEven_cases (num : Nat) {den : Nat} (h : 0 < den) :
    (roundHalfEven num den = num / den ∧ 2 * (num / den : ℚ) ≤ 2 * (num / den : Nat) + 1
        ∧ (2 * (num / den : ℚ) = 2 * (num / den : Nat) + 1 → num / den % 2 = 0))
      ∨ (roundHalfEven num den = num / den + 1 ∧ 2 * (num / den : Nat) + 1 ≤ 2 * (num / den : ℚ)
        ∧ (2 * (num / den : ℚ) = 2 * (num / den : Nat) + 1 → (num / den + 1) % 2 = 0)) := by
  have hden : (0 : ℚ) < den := by exact_mod_cast h
  have hle : 2 * (num / den : ℚ) ≤ 2 * (num / den : Nat) + 1
      ↔ 2 * num ≤ (2 * (num / den) + 1) * den := by
    rw [← mul_div_assoc, div_le_iff₀ hden]
    exact_mod_cast Iff.rfl
  have hge : 2 * (num / den : Nat) + 1 ≤ 2 * (num / den : ℚ)
      ↔ (2 * (num / den) + 1) * den ≤ 2 * num := by
    rw [← mul_div_assoc, le_div_iff₀ hden]
    exact_mod_cast Iff.rfl
  have htie : 2 * (num / den : ℚ) = 2 * (num / den : Nat) + 1
      ↔ 2 * num = (2 * (num / den) + 1) * den := by
    rw [← mul_div_assoc, div_eq_iff hden.ne']
    exact_mod_cast Iff.rfl
  have hnum : den * (num / den) + num % den = num := Nat.div_add_mod num den
  have hrest : num % den < den := Nat.mod_lt num h
  have hmiddle : (2 * (num / den) + 1) * den = 2 * (den * (num / den)) + den := by ring
  rw [hle, hge, htie, hmiddle]
  unfold roundHalfEven
  dsimp only
  split
  · exact Or.inl ⟨rfl, by omega, by omega⟩
  · split
    · exact Or.inr ⟨rfl, by omega, by omega⟩
    · split
      · exact Or.inl ⟨rfl, by omega, by omega⟩
      · exact Or.inr ⟨rfl, by omega, by omega⟩

/-- A power of two with any exponent as a ratio of two naturals. -/
theorem two_zpow_eq (place : Int) :
    (2 : ℚ) ^ place = (2 : ℚ) ^ place.toNat / (2 : ℚ) ^ (-place).toNat := by
  rw [← zpow_natCast, ← zpow_natCast, ← zpow_sub₀ two_ne_zero]
  congr 1
  omega

theorem log2_spec {n : Nat} (h : n ≠ 0) :
    (2 : ℚ) ^ (n.log2 : Int) ≤ n ∧ (n : ℚ) < (2 : ℚ) ^ (n.log2 + 1 : Int) := by
  have hlow : 2 ^ n.log2 ≤ n := Nat.log2_self_le h
  have hhigh : n < 2 ^ (n.log2 + 1) := Nat.lt_log2_self
  have hlow' : (2 : ℚ) ^ n.log2 ≤ n := by exact_mod_cast hlow
  have hhigh' : (n : ℚ) < (2 : ℚ) ^ (n.log2 + 1) := by exact_mod_cast hhigh
  exact ⟨by exact_mod_cast hlow', by exact_mod_cast hhigh'⟩

/-- The exponent of a ratio is that of the greatest power of two that is not above it. -/
theorem binaryExponent_spec {num den : Nat} (hnum : num ≠ 0) (hden : den ≠ 0) :
    (2 : ℚ) ^ binaryExponent num den ≤ num / den
      ∧ (num / den : ℚ) < (2 : ℚ) ^ (binaryExponent num den + 1) := by
  have hden' : (0 : ℚ) < den := by exact_mod_cast Nat.pos_of_ne_zero hden
  obtain ⟨hnumLow, hnumHigh⟩ := log2_spec hnum
  obtain ⟨hdenLow, hdenHigh⟩ := log2_spec hden
  have hcondition : ∀ upper : Int,
      den * 2 ^ upper.toNat ≤ num * 2 ^ (-upper).toNat ↔ (2 : ℚ) ^ upper ≤ num / den := by
    intro upper
    rw [two_zpow_eq, div_le_div_iff₀ (by positivity) hden', mul_comm ((2 : ℚ) ^ _)]
    exact_mod_cast Iff.rfl
  unfold binaryExponent
  dsimp only
  split
  · rename_i hupper
    refine ⟨(hcondition _).mp hupper, ?_⟩
    calc (num / den : ℚ) < (2 : ℚ) ^ (num.log2 + 1 : Int) / (2 : ℚ) ^ (den.log2 : Int) :=
          div_lt_div₀ hnumHigh hdenLow (by positivity) (by positivity)
      _ = (2 : ℚ) ^ ((num.log2 : Int) - den.log2 + 1) := by
          rw [← zpow_sub₀ two_ne_zero]
          congr 1
          ring
  · rename_i hupper
    constructor
    · calc (2 : ℚ) ^ ((num.log2 : Int) - den.log2 - 1)
          = (2 : ℚ) ^ (num.log2 : Int) / (2 : ℚ) ^ (den.log2 + 1 : Int) := by
            rw [← zpow_sub₀ two_ne_zero]
            congr 1
            ring
        _ ≤ num / den := div_le_div₀ (by positivity) hnumLow hden' hdenHigh.le
    · rw [sub_add_cancel]
      exact lt_of_not_ge fun hle => hupper ((hcondition _).mpr hle)

/-- A ratio as so many units of a place. -/
theorem ratio_eq_scaled (place : Int) (num : Nat) {den : Nat} (hden : den ≠ 0) :
    (num / den : ℚ) = ((num * 2 ^ (-place).toNat : Nat) : ℚ) / (den * 2 ^ place.toNat : Nat)
      * (2 : ℚ) ^ place := by
  have hden' : (den : ℚ) ≠ 0 := by exact_mod_cast hden
  rw [two_zpow_eq]
  push_cast
  field_simp

/-- The whole part of a ratio in units of its last place is a significand. -/
theorem isPlaced_placeOf {num den : Nat} (hnum : num ≠ 0) (hden : den ≠ 0) :
    IsPlaced (placeOf 53 (-1074) num den)
      (num * 2 ^ (-placeOf 53 (-1074) num den).toNat
        / (den * 2 ^ (placeOf 53 (-1074) num den).toNat)) := by
  obtain ⟨hlow, hhigh⟩ := binaryExponent_spec hnum hden
  have hplace : placeOf 53 (-1074) num den = max (binaryExponent num den - 52) (-1074) := by
    unfold placeOf
    omega
  generalize placeOf 53 (-1074) num den = place at hplace ⊢
  have hscaled : 0 < den * 2 ^ place.toNat :=
    Nat.mul_pos (Nat.pos_of_ne_zero hden) (Nat.two_pow_pos _)
  have hbottom : (0 : ℚ) < (den * 2 ^ place.toNat : Nat) := by exact_mod_cast hscaled
  have hunit : (0 : ℚ) < (2 : ℚ) ^ place := by positivity
  rw [ratio_eq_scaled place num hden] at hlow hhigh
  constructor
  · omega
  · have hmono : (2 : ℚ) ^ (binaryExponent num den + 1) ≤ 2 ^ 53 * (2 : ℚ) ^ place := by
      rw [← zpow_natCast, ← zpow_add₀ two_ne_zero]
      exact zpow_le_zpow_right₀ one_le_two (by omega)
    have hlt := lt_of_mul_lt_mul_right (hhigh.trans_le hmono) hunit.le
    rw [div_lt_iff₀ hbottom] at hlt
    exact (Nat.div_lt_iff_lt_mul hscaled).mpr (by exact_mod_cast hlt)
  · by_cases hlowest : place = -1074
    · exact Or.inr hlowest
    · have hexponent : (2 : ℚ) ^ binaryExponent num den = 2 ^ 52 * (2 : ℚ) ^ place := by
        rw [← zpow_natCast, ← zpow_add₀ two_ne_zero]
        congr 1
        omega
      have hle := le_of_mul_le_mul_right (hexponent.symm.trans_le hlow) hunit
      rw [le_div_iff₀ hbottom] at hle
      exact Or.inl ((Nat.le_div_iff_mul_le hscaled).mpr (by exact_mod_cast hle))

/-- Units of a place are rounded to the nearest magnitude, since the whole ones are the lower of two
neighbours. -/
theorem IsPlaced.isNearest_roundHalfEven {place : Int} {num den : Nat} (hden : 0 < den)
    (h : IsPlaced place (num / den)) :
    IsNearest ((num / den : ℚ) * (2 : ℚ) ^ place) (placedRank place (roundHalfEven num den)) := by
  have hden' : (0 : ℚ) < den := by exact_mod_cast hden
  have hunit : (0 : ℚ) < (2 : ℚ) ^ place := by positivity
  have hwhole : ((num / den : Nat) : ℚ) ≤ num / den := by
    rw [le_div_iff₀ hden']
    exact_mod_cast Nat.div_mul_le_self num den
  have hnext : (num / den : ℚ) ≤ (num / den : Nat) + 1 := by
    rw [div_le_iff₀ hden', mul_comm]
    exact_mod_cast (Nat.lt_mul_div_succ num hden).le
  have hlower := h.magnitude_eq
  have hupper := h.magnitude_succ
  have hsum : magnitude (placedRank place (num / den))
        + magnitude (placedRank place (num / den) + 1)
      = (2 * (num / den : Nat) + 1) * (2 : ℚ) ^ place := by
    rw [hlower, hupper]
    ring
  have hparity : placedRank place (num / den) % 2 = num / den % 2 := by
    unfold placedRank
    omega
  have htie : 2 * ((num / den : ℚ) * (2 : ℚ) ^ place) = magnitude (placedRank place (num / den))
        + magnitude (placedRank place (num / den) + 1)
      → 2 * (num / den : ℚ) = 2 * (num / den : Nat) + 1 := by
    intro heq
    rw [hsum, ← mul_assoc] at heq
    exact mul_right_cancel₀ hunit.ne' heq
  rcases roundHalfEven_cases num hden with ⟨hround, hle, heven⟩ | ⟨hround, hle, heven⟩
  · rw [hround]
    refine isNearest_lower ?_ ?_ fun heq => hparity.trans (heven (htie heq))
    · rw [hlower]
      exact mul_le_mul_of_nonneg_right hwhole hunit.le
    · rw [hsum, ← mul_assoc]
      exact mul_le_mul_of_nonneg_right hle hunit.le
  · have hsucc : placedRank place (num / den + 1) = placedRank place (num / den) + 1 :=
      (Nat.add_assoc _ _ 1).symm
    rw [hround, hsucc]
    refine isNearest_upper ?_ ?_ fun heq => ?_
    · rw [hupper]
      exact mul_le_mul_of_nonneg_right hnext hunit.le
    · rw [hsum, ← mul_assoc]
      exact mul_le_mul_of_nonneg_right hle hunit.le
    · have hodd := heven (htie heq)
      omega

/-- Rounding a ratio gives the rank that is nearest to it. -/
theorem isNearest_nearestRank (num : Nat) {den : Nat} (hden : den ≠ 0) :
    IsNearest (num / den) (nearestRank num den) := by
  by_cases hnum : num = 0
  · subst hnum
    have hzero : ((0 : Nat) / den : ℚ) = magnitude 0 := by
      rw [magnitude_zero, Nat.cast_zero, zero_div]
    rw [hzero]
    exact isNearest_magnitude 0
  have hrank : nearestRank num den
      = placedRank (placeOf 53 (-1074) num den) (unitsOf (placeOf 53 (-1074) num den) num den) := by
    rw [nearestRank, if_neg hnum]
    rfl
  have hscaled : 0 < den * 2 ^ (placeOf 53 (-1074) num den).toNat :=
    Nat.mul_pos (Nat.pos_of_ne_zero hden) (Nat.two_pow_pos _)
  rw [hrank, unitsOf, ratio_eq_scaled (placeOf 53 (-1074) num den) num hden]
  exact (isPlaced_placeOf hnum hden).isNearest_roundHalfEven hscaled

end RecordQuery.Binary64
