import Mathlib.Algebra.Order.Field.Power
import Mathlib.Algebra.Order.Ring.Rat
import Mathlib.Order.Monotone.Basic
import Mathlib.Tactic.Linarith
import Mathlib.Tactic.Ring
import Mathlib.Tactic.Positivity
import RecordQuery.Binary64.Rounding

/-!
# Magnitudes of ranks

The magnitude that a rank stands for, as a rational number. Ranks are in
the order of their magnitudes (`magnitude_strictMono`), since the magnitude
of the next rank is one unit of the last place more (`magnitude_succ`). That
the unit may be the one that carries over to the next power of two makes no
difference (`magnitude_placed`).
-/

namespace RecordQuery.Binary64

/-- The magnitude of a rank. -/
def magnitude (rank : Nat) : ℚ :=
  significand rank * (2 : ℚ) ^ lastPlace rank

/-- A significand in a place: it is short of its 53 bits only in the lowest place. -/
structure IsPlaced (place : Int) (units : Nat) : Prop where
  lowest_le : -1074 ≤ place
  lt : units < 2 ^ 53
  normal : 2 ^ 52 ≤ units ∨ place = -1074

/-- The rank of units of a place. -/
def placedRank (place : Int) (units : Nat) : Nat :=
  (place + 1074).toNat * 2 ^ 52 + units

theorem isPlaced_significand (rank : Nat) : IsPlaced (lastPlace rank) (significand rank) := by
  unfold lastPlace significand
  constructor <;> split <;> omega

theorem placedRank_significand (rank : Nat) :
    placedRank (lastPlace rank) (significand rank) = rank := by
  unfold placedRank lastPlace significand
  split <;> omega

theorem IsPlaced.significand_eq {place : Int} {units : Nat} (h : IsPlaced place units) :
    significand (placedRank place units) = units := by
  obtain ⟨hplace, hlt, hnormal⟩ := h
  unfold placedRank significand
  split <;> omega

theorem IsPlaced.lastPlace_eq {place : Int} {units : Nat} (h : IsPlaced place units) :
    lastPlace (placedRank place units) = place := by
  obtain ⟨hplace, hlt, hnormal⟩ := h
  unfold placedRank lastPlace
  split <;> omega

theorem IsPlaced.magnitude_eq {place : Int} {units : Nat} (h : IsPlaced place units) :
    magnitude (placedRank place units) = units * (2 : ℚ) ^ place := by
  rw [magnitude, h.significand_eq, h.lastPlace_eq]

/-- The next rank has one unit more, also where that unit is carried over. -/
theorem IsPlaced.magnitude_succ {place : Int} {units : Nat} (h : IsPlaced place units) :
    magnitude (placedRank place units + 1) = (units + 1) * (2 : ℚ) ^ place := by
  obtain ⟨hplace, hlt, hnormal⟩ := h
  by_cases hcarry : units + 1 = 2 ^ 53
  · have hrank : placedRank place units + 1 = placedRank (place + 1) (2 ^ 52) := by
      unfold placedRank
      omega
    have hnext : IsPlaced (place + 1) (2 ^ 52) := ⟨by omega, by decide, Or.inl le_rfl⟩
    have hfull : (units : ℚ) + 1 = 2 ^ 53 := by exact_mod_cast hcarry
    rw [hrank, hnext.magnitude_eq, hfull, zpow_add_one₀ two_ne_zero]
    push_cast
    ring
  · have hnext : IsPlaced place (units + 1) := ⟨hplace, by omega, by omega⟩
    have hrank : placedRank place units + 1 = placedRank place (units + 1) := by
      unfold placedRank
      omega
    rw [hrank, hnext.magnitude_eq]
    push_cast
    rfl

theorem magnitude_succ (rank : Nat) :
    magnitude (rank + 1) = magnitude rank + (2 : ℚ) ^ lastPlace rank := by
  have h := (isPlaced_significand rank).magnitude_succ
  rw [placedRank_significand] at h
  rw [h, magnitude]
  ring

theorem magnitude_strictMono : StrictMono magnitude :=
  strictMono_nat_of_lt_succ fun rank => by
    rw [magnitude_succ]
    exact lt_add_of_pos_right _ (by positivity)

theorem magnitude_zero : magnitude 0 = 0 := by
  simp [magnitude, significand]

end RecordQuery.Binary64
