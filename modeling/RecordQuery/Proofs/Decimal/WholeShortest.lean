import RecordQuery.Decimal.Shortest
import RecordQuery.Proofs.Binary64.Integers
import RecordQuery.Proofs.Decimal.Natural

/-!
# The shortest decimal of a whole magnitude

The decimal that is chosen for a magnitude that is a natural denotes a
natural itself, one that reads back to the magnitude (`isWhole_shortest`).
For with as many digits as the magnitude has, the magnitude is its own
neighbour and reads back, so no more digits are ever tried, and with no
more digits than that a neighbour is a multiple of a power of ten that
has no fraction.
-/

namespace RecordQuery

namespace Binary64

theorem magnitude_eq_ratio (rank : Nat) :
    magnitude rank = ((ratio rank).1 : ℚ) / (ratio rank).2 := by
  rw [magnitude, two_zpow_eq, ratio]
  push_cast
  rw [mul_div_assoc]

theorem ratio_snd_pos (rank : Nat) : 0 < (ratio rank).2 :=
  Nat.two_pow_pos _

/-- A magnitude that is a natural is that natural over one. -/
theorem ratio_fst_eq {rank n : Nat} (h : magnitude rank = n) :
    (ratio rank).1 = n * (ratio rank).2 := by
  have hden : ((ratio rank).2 : ℚ) ≠ 0 := by exact_mod_cast (ratio_snd_pos rank).ne'
  rw [magnitude_eq_ratio, div_eq_iff hden] at h
  exact_mod_cast h

end Binary64

namespace Decimal

open Binary64

variable {rank n : Nat}

/-- The decimal denotes a natural of at most 21 digits that reads back to the rank. -/
structure IsWhole (rank : Nat) (d : Decimal) : Prop where
  coefficient_pos : 0 < d.coefficient
  exponent_nonneg : 0 ≤ d.exponent
  natural_lt : d.natural < 10 ^ 21
  readsBack : readsBack rank d = true

/-- Whether a natural reads back is a matter of its nearest number. -/
theorem readsBack_iff {d : Decimal} (hcoefficient : 0 < d.coefficient) (hexponent : 0 ≤ d.exponent)
    (hnatural : d.natural < 10 ^ 21) :
    readsBack rank d = true ↔ ofRank false (nearestRank d.natural 1) = ofRank false rank := by
  have hpoint := point_eq hcoefficient hexponent
  have hlength := (length_digitsOf_le_iff (k := 21) (by decide)).mpr hnatural
  have hvalue : d.toBinary64 false = ofRatio false d.natural 1 := by
    rw [toBinary64, if_neg (by omega), if_neg (by omega), if_neg (by omega), natural,
      show (-d.exponent).toNat = 0 by omega, Nat.pow_zero]
  rw [readsBack, hvalue, decide_eq_true_eq, ofRatio]

/-- The point of a natural stands behind its last digit. -/
theorem pointOf_ratio (h : magnitude rank = n) (hn : 0 < n) :
    pointOf (ratio rank).1 (ratio rank).2 = (digitsOf n).length := by
  have hquotient : ∀ scale, (ratio rank).1 * scale / (ratio rank).2 = n * scale := by
    intro scale
    rw [ratio_fst_eq h, Nat.mul_right_comm, Nat.mul_div_cancel _ (ratio_snd_pos rank)]
  rw [pointOf, hquotient, length_digitsOf_mul_ten_pow hn 400]
  omega

/-- A neighbour of a natural among the multiples of a power of ten that has no fraction: it is at
most that power above. -/
theorem mem_neighbours {d : Decimal} {exponent : Nat} (h : magnitude rank = n)
    (hd : d ∈ neighbours rank exponent) :
    d.exponent = exponent ∧ n / 10 ^ exponent ≤ d.coefficient ∧ d.natural ≤ n + 10 ^ exponent := by
  have hquotient : (ratio rank).1 * 10 ^ (-(exponent : Int)).toNat
      / ((ratio rank).2 * 10 ^ (exponent : Int).toNat) = n / 10 ^ exponent := by
    rw [show (-(exponent : Int)).toNat = 0 by omega, Int.toNat_natCast, Nat.pow_zero, Nat.mul_one,
      ratio_fst_eq h, Nat.mul_comm n, Nat.mul_div_mul_left _ _ (ratio_snd_pos rank)]
  have hmember : d = ⟨n / 10 ^ exponent, exponent⟩ ∨ d = ⟨n / 10 ^ exponent + 1, exponent⟩ := by
    unfold neighbours at hd
    dsimp only at hd
    rw [hquotient] at hd
    split at hd
    · simpa using hd
    · simpa [or_comm] using hd
  have hbelow : n / 10 ^ exponent * 10 ^ exponent ≤ n := Nat.div_mul_le_self n _
  rcases hmember with rfl | rfl
  · refine ⟨rfl, le_rfl, ?_⟩
    simp only [natural, Int.toNat_natCast]
    exact hbelow.trans (Nat.le_add_right _ _)
  · refine ⟨rfl, Nat.le_succ _, ?_⟩
    simp only [natural, Int.toNat_natCast, Nat.add_mul, Nat.one_mul]
    omega

/-- What is found with no more digits than the natural has is a natural too, and at most twice as
great. -/
theorem isWhole_of_withDigits? {count : Nat} {d : Decimal} (h : magnitude rank = n) (hn : 0 < n)
    (hsmall : n < 10 ^ 20) (hcount : 0 < count) (hfits : count ≤ (digitsOf n).length)
    (hd : withDigits? rank count = some d) : IsWhole rank d := by
  have hfound : (neighbours rank ((digitsOf n).length - count : Nat)).find? (readsBack rank)
      = some d := by
    rw [Int.ofNat_sub hfits, ← pointOf_ratio h hn]
    exact hd
  obtain ⟨hexponent, hcoefficient, hnatural⟩ :=
    mem_neighbours h (List.mem_of_find?_eq_some hfound)
  have hunit : 10 ^ ((digitsOf n).length - count) ≤ n := ten_pow_le hn (by omega)
  exact {
    coefficient_pos := (Nat.div_pos hunit (Nat.pow_pos (by decide))).trans_le hcoefficient
    exponent_nonneg := by omega
    natural_lt := by omega
    readsBack := List.find?_some hfound }

theorem isWhole_self (h : magnitude rank = n) (hn : 0 < n) (hsmall : n < 10 ^ 20) :
    IsWhole rank ⟨n, 0⟩ := by
  have hnatural : (⟨n, 0⟩ : Decimal).natural = n := Nat.mul_one n
  have hlt : (⟨n, 0⟩ : Decimal).natural < 10 ^ 21 := by omega
  refine ⟨hn, le_rfl, hlt, (readsBack_iff hn le_rfl hlt).mpr ?_⟩
  rw [hnatural, nearestRank_of_magnitude h]

/-- With its own digits the natural is found, since it reads back. -/
theorem withDigits?_length_isSome (h : magnitude rank = n) (hn : 0 < n) (hsmall : n < 10 ^ 20) :
    (withDigits? rank (digitsOf n).length).isSome = true := by
  have hmember : (⟨n, 0⟩ : Decimal) ∈ neighbours rank 0 := by
    simp only [neighbours, ratio_fst_eq h, Int.neg_zero, Int.toNat_zero, Nat.pow_zero, Nat.mul_one,
      Nat.mul_div_cancel _ (ratio_snd_pos rank)]
    split <;> simp
  have hfound : (withDigits? rank (digitsOf n).length)
      = (neighbours rank 0).find? (readsBack rank) := by
    rw [withDigits?]
    dsimp only
    rw [pointOf_ratio h hn, Int.sub_self]
  rw [hfound, List.find?_isSome]
  exact ⟨_, hmember, (isWhole_self h hn hsmall).readsBack⟩

/-- Where no place is a fraction, the exact value is the natural as it is. -/
theorem exact_eq (h : magnitude rank = n) (hplace : 0 ≤ lastPlace rank) : exact rank = ⟨n, 0⟩ := by
  have hvalue : significand rank * 2 ^ (lastPlace rank).toNat = n := by
    have hratio := ratio_fst_eq h
    rw [ratio, show (-lastPlace rank).toNat = 0 by omega, Nat.pow_zero, Nat.mul_one] at hratio
    exact hratio
  rw [exact, hvalue, show (-lastPlace rank).toNat = 0 by omega, Nat.pow_zero, Nat.mul_one,
    min_eq_right hplace]

/-- What is found first in ascending order is found at the least number at which anything is. -/
theorem exists_least_of_findSome?_range' {α : Type} {f : Nat → Option α} {start steps : Nat} {a : α}
    (h : (List.range' start steps).findSome? f = some a) :
    ∃ i, start ≤ i ∧ f i = some a ∧ ∀ j, start ≤ j → j < i → f j = none := by
  obtain ⟨before, i, after, hsplit, hfound, hnone⟩ := List.findSome?_eq_some_iff.mp h
  have hi : i ∈ List.range' start steps := by simp [hsplit]
  rw [List.mem_range'_1] at hi
  refine ⟨i, hi.1, hfound, fun j hstart hj => hnone j ?_⟩
  have hordered : (before ++ i :: after).Pairwise (· < ·) := hsplit ▸ List.pairwise_lt_range'
  have hmember : j ∈ before ++ i :: after := by
    rw [← hsplit, List.mem_range'_1]
    omega
  rw [List.pairwise_append, List.pairwise_cons] at hordered
  rcases List.mem_append.mp hmember with hbefore | hrest
  · exact hbefore
  · rcases List.mem_cons.mp hrest with rfl | hafter
    · exact absurd hj (lt_irrefl _)
    · exact absurd hj (hordered.2.1.1 j hafter).asymm

/-- **The decimal that is chosen for a whole magnitude is whole.** -/
theorem isWhole_shortest (h : magnitude rank = n) (hn : 0 < n) (hsmall : n < 10 ^ 20) :
    IsWhole rank (shortest rank) := by
  have hown := withDigits?_length_isSome h hn hsmall
  have hpos := length_digitsOf_pos n
  rw [shortest]
  cases hfirst : (List.range' 1 17).findSome? (withDigits? rank) with
  | some d =>
      obtain ⟨count, hcount, hd, hnone⟩ := exists_least_of_findSome?_range' hfirst
      refine isWhole_of_withDigits? h hn hsmall hcount ?_ hd
      by_contra hmore
      rw [hnone _ hpos (by omega)] at hown
      cases hown
  | none =>
      have hlong : 17 < (digitsOf n).length := by
        by_contra hshort
        rw [List.findSome?_eq_none_iff] at hfirst
        rw [hfirst _ (List.mem_range'_1.mpr (by omega))] at hown
        cases hown
      have hplace : 0 ≤ lastPlace rank := by
        refine lastPlace_nonneg ?_
        have hten := ten_pow_le hn hlong
        rw [h]
        exact_mod_cast (show 2 ^ 53 ≤ n by omega)
      rw [Option.getD_none, exact_eq h hplace]
      exact isWhole_self h hn hsmall

end Decimal

end RecordQuery
