import RecordQuery.Proofs.Binary64.Nearest

/-!
# Integers as binary64 numbers

A significand of up to 53 bits in any place is a magnitude
(`exists_magnitude_eq`), so every integer up to 2^53 is a binary64 number
and is its own nearest one. A greater integer never has a lesser nearest
number. So two integers are in the order of their nearest numbers, unless
they have the same (`compare?_ofInt`), and two different integers have the
same only if neither is below 2^53 in magnitude, and one of them is above
(`le_natAbs_of_ofInt_eq`).
-/

namespace RecordQuery.Binary64

/-! ## Exact magnitudes -/

/-- Every significand of up to 53 bits has a rank. One that is short of its bits is doubled until
it has them or stands in the lowest place. -/
theorem exists_magnitude_eq : ∀ (steps : Nat) (place : Int) (units : Nat),
    place = -1074 + steps → units ≤ 2 ^ 53 →
      ∃ rank, magnitude rank = units * (2 : ℚ) ^ place := by
  have hplaced : ∀ {place : Int} {units : Nat}, -1074 ≤ place → units ≤ 2 ^ 53 →
      2 ^ 52 ≤ units ∨ place = -1074 → ∃ rank, magnitude rank = units * (2 : ℚ) ^ place := by
    intro place units hplace hunits hnormal
    rcases Nat.lt_or_eq_of_le hunits with hlt | rfl
    · exact ⟨_, IsPlaced.magnitude_eq ⟨hplace, hlt, hnormal⟩⟩
    · have hcarried : IsPlaced (place + 1) (2 ^ 52) := ⟨by omega, by decide, Or.inl le_rfl⟩
      refine ⟨_, hcarried.magnitude_eq.trans ?_⟩
      rw [zpow_add_one₀ two_ne_zero]
      push_cast
      ring
  intro steps
  induction steps with
  | zero =>
      intro place units hplace hunits
      exact hplaced (by omega) hunits (Or.inr (by omega))
  | succ steps ih =>
      intro place units hplace hunits
      by_cases hnormal : 2 ^ 52 ≤ units
      · exact hplaced (by omega) hunits (Or.inl hnormal)
      · obtain ⟨rank, hrank⟩ := ih (place - 1) (2 * units) (by omega) (by omega)
        refine ⟨rank, hrank.trans ?_⟩
        rw [zpow_sub_one₀ two_ne_zero]
        push_cast
        ring

theorem isNearest_natural (n : Nat) : IsNearest n (nearestRank n 1) := by
  have hnearest := isNearest_nearestRank n one_ne_zero
  rwa [Nat.cast_one, div_one] at hnearest

/-- A magnitude that is a natural is that of the natural's rank. -/
theorem nearestRank_of_magnitude {rank n : Nat} (h : magnitude rank = n) :
    nearestRank n 1 = rank :=
  (isNearest_natural n).unique (h ▸ isNearest_magnitude rank)

/-- A natural up to 2^53 is the magnitude of its rank. -/
theorem magnitude_nearestRank {n : Nat} (h : n ≤ 2 ^ 53) : magnitude (nearestRank n 1) = n := by
  obtain ⟨rank, hrank⟩ := exists_magnitude_eq 1074 0 n (by omega) h
  rw [zpow_zero, mul_one] at hrank
  rw [nearestRank_of_magnitude hrank, hrank]

/-- From 2^53 on a magnitude has no fraction. -/
theorem lastPlace_nonneg {rank : Nat} (h : 2 ^ 53 ≤ magnitude rank) : 0 ≤ lastPlace rank := by
  by_contra hnegative
  have hunit : (2 : ℚ) ^ lastPlace rank ≤ 1 := zpow_le_one_of_nonpos₀ one_le_two (by omega)
  have hsignificand : (significand rank : ℚ) < 2 ^ 53 := by
    exact_mod_cast (isPlaced_significand rank).lt
  have hless : magnitude rank ≤ significand rank := by
    rw [magnitude]
    exact mul_le_of_le_one_right (Nat.cast_nonneg _) hunit
  linarith

/-- The number of an integer has its sign and the rank that is nearest to its magnitude. -/
theorem exists_isNearest_ofInt (n : Int) :
    ∃ rank, ofInt n = ofRank (decide (n < 0)) rank ∧ IsNearest n.natAbs rank :=
  ⟨_, rfl, isNearest_natural n.natAbs⟩

/-! ## Integers in order -/

theorem nearestRank_le {m n : Nat} (h : m ≤ n) : nearestRank m 1 ≤ nearestRank n 1 :=
  (isNearest_natural m).le_of_le (isNearest_natural n) (by exact_mod_cast h)

/-- The rank of the number nearest to a natural. -/
def integerRank (n : Nat) : Nat :=
  min (nearestRank n 1) infinityRank

theorem integerRank_le {m n : Nat} (h : m ≤ n) : integerRank m ≤ integerRank n :=
  min_le_min (nearestRank_le h) le_rfl

theorem nearestRank_lt_infinityRank {n : Nat} (h : n ≤ 2 ^ 64) :
    nearestRank n 1 < infinityRank :=
  (nearestRank_le h).trans_lt (by decide +kernel)

/-- A natural below 2^53 has a rank of its own, since the next natural has a greater one. -/
theorem integerRank_lt {m n : Nat} (h : m < n) (hm : m < 2 ^ 53) :
    integerRank m < integerRank n := by
  have hmagnitude : magnitude (nearestRank m 1) < magnitude (nearestRank (m + 1) 1) := by
    rw [magnitude_nearestRank hm.le, magnitude_nearestRank hm]
    exact_mod_cast Nat.lt_succ_self m
  have hnext : integerRank m < integerRank (m + 1) := by
    have hrank := magnitude_strictMono.lt_iff_lt.mp hmagnitude
    have hfinite := nearestRank_lt_infinityRank (hm.le.trans (by decide))
    unfold integerRank
    omega
  exact hnext.trans_le (integerRank_le h)

theorem integerRank_lt_succ (n : Nat) : integerRank n < infinityRank + 1 :=
  Nat.lt_succ_of_le (min_le_right _ _)

theorem ofInt_eq_signed (n : Int) :
    ofInt n = .signed (decide (n < 0)) ⟨integerRank n.natAbs, integerRank_lt_succ n.natAbs⟩ :=
  rfl

/-- The place of the number nearest to an integer in the order of all numbers. -/
def integerKey (n : Int) : Int :=
  if n < 0 then -(integerRank n.natAbs : Int) else integerRank n.natAbs

theorem key?_ofInt (n : Int) : (ofInt n).key? = some (integerKey n) := by
  have hkey : (ofInt n).key?
      = some (if decide (n < 0) then -(integerRank n.natAbs : Int) else integerRank n.natAbs) := rfl
  rw [hkey, integerKey]
  simp only [decide_eq_true_eq]

theorem integerRank_pos {n : Nat} (h : 0 < n) : 0 < integerRank n :=
  (Nat.zero_le _).trans_lt (integerRank_lt h (by decide))

theorem integerKey_ne_zero {n : Int} (h : n ≠ 0) : integerKey n ≠ 0 := by
  have hpos := integerRank_pos (Int.natAbs_pos.mpr h)
  unfold integerKey
  split <;> omega

theorem integerKey_le {m n : Int} (h : m ≤ n) : integerKey m ≤ integerKey n := by
  unfold integerKey
  split
  · split
    · have hrank := integerRank_le (show n.natAbs ≤ m.natAbs by omega)
      omega
    · omega
  · have hrank := integerRank_le (show m.natAbs ≤ n.natAbs by omega)
    split <;> omega

/-- Of two integers the lesser one has a place before that of the other, unless neither is below
2^53 in magnitude and one is above. -/
theorem integerKey_lt {m n : Int} (h : m < n)
    (hsmall : m.natAbs < 2 ^ 53 ∨ n.natAbs < 2 ^ 53
      ∨ m.natAbs ≤ 2 ^ 53 ∧ n.natAbs ≤ 2 ^ 53) : integerKey m < integerKey n := by
  unfold integerKey
  split
  · split
    · have hrank := integerRank_lt (show n.natAbs < m.natAbs by omega) (by omega)
      omega
    · have hpos := integerRank_pos (show 0 < m.natAbs by omega)
      omega
  · have hrank := integerRank_lt (show m.natAbs < n.natAbs by omega) (by omega)
    split <;> omega

theorem ofInt_eq_iff {m n : Int} : ofInt m = ofInt n ↔ integerKey m = integerKey n := by
  constructor
  · intro h
    have hkeys := congrArg key? h
    rw [key?_ofInt, key?_ofInt] at hkeys
    exact Option.some.inj hkeys
  · intro h
    have hm : m ≠ 0 → 0 < integerRank m.natAbs := fun hne => integerRank_pos (by omega)
    have hn : n ≠ 0 → 0 < integerRank n.natAbs := fun hne => integerRank_pos (by omega)
    unfold integerKey at h
    have hsign : decide (m < 0) = decide (n < 0) := by
      rw [decide_eq_decide]
      split at h <;> split at h <;> omega
    have hrank : integerRank m.natAbs = integerRank n.natAbs := by
      split at h <;> split at h <;> omega
    rw [ofInt_eq_signed, ofInt_eq_signed, hsign]
    congr 2

/-- Two different integers have the same nearest number only if neither is below 2^53 in
magnitude, and one is above. -/
theorem le_natAbs_of_ofInt_eq {m n : Int} (hne : m ≠ n) (h : ofInt m = ofInt n) :
    2 ^ 53 ≤ m.natAbs ∧ 2 ^ 53 ≤ n.natAbs ∧ (2 ^ 53 < m.natAbs ∨ 2 ^ 53 < n.natAbs) := by
  rw [ofInt_eq_iff] at h
  by_contra hsmall
  rcases Int.lt_or_gt_of_ne hne with hlt | hlt
  · exact absurd h (integerKey_lt hlt (by omega)).ne
  · exact absurd h (integerKey_lt hlt (by omega)).ne'

/-! ## Comparison of integers -/

theorem compare_integerKey (m n : Int) :
    compare (integerKey m) (integerKey n) = if ofInt m = ofInt n then .eq else compare m n := by
  split
  · rename_i heq
    rw [ofInt_eq_iff.mp heq, Int.compare_eq_eq]
  · rename_i hne
    rw [ofInt_eq_iff] at hne
    rcases Int.lt_trichotomy m n with hlt | rfl | hlt
    · have hkey := lt_of_le_of_ne (integerKey_le hlt.le) hne
      rw [Int.compare_eq_lt.mpr hkey, Int.compare_eq_lt.mpr hlt]
    · exact absurd rfl hne
    · have hkey := lt_of_le_of_ne (integerKey_le hlt.le) (Ne.symm hne)
      rw [Int.compare_eq_gt.mpr hkey, Int.compare_eq_gt.mpr hlt]

/-- Integers are equal as numbers if they have the same nearest one. -/
theorem eq_ofInt (m n : Int) : (ofInt m).eq (ofInt n) = decide (ofInt m = ofInt n) := by
  rw [eq, key?_ofInt, key?_ofInt, Bool.eq_iff_iff, decide_eq_true_eq, ofInt_eq_iff]
  exact beq_iff_eq

/-- Integers are in their order as numbers, unless they have the same nearest one. -/
theorem compare?_ofInt (m n : Int) :
    (ofInt m).compare? (ofInt n) = some (if ofInt m = ofInt n then .eq else compare m n) := by
  rw [compare?, key?_ofInt, key?_ofInt, ← compare_integerKey]

end RecordQuery.Binary64
