import RecordQuery.Binary64.Text
import RecordQuery.Proofs.Decimal.WholeShortest

/-!
# Texts of whole numbers

Numbers that are equal have one text, also the two zeros
(`text_eq_of_eq`). The shortest decimal of the number nearest to a 64-bit
integer is an integer, and one whose nearest number is the same
(`exists_text_ofInt`). Up to 2^53 in magnitude no other integer has the
same nearest number, so there the text is that of the integer itself
(`text_ofInt`); beyond, the shortest decimal may be another integer.
-/

namespace RecordQuery.Binary64

theorem signedRank_neg_iff {negative : Bool} {rank : Nat} (h : 0 < rank) :
    (if negative then -(rank : Int) else rank) < 0 ↔ negative = true := by
  cases negative with
  | false => simp
  | true => simpa using h

/-- Equal numbers are the same, but for the two zeros. -/
theorem eq_or_key?_of_eq {x y : Binary64} (h : x.eq y = true) :
    x = y ∨ x.key? = some 0 ∧ y.key? = some 0 := by
  cases x with
  | nan => cases h
  | signed xneg xrank =>
      cases y with
      | nan => cases h
      | signed yneg yrank =>
          have hkeys : (if xneg then -(xrank.val : Int) else xrank.val)
              = if yneg then -(yrank.val : Int) else yrank.val := beq_iff_eq.mp h
          have hrank : xrank = yrank := by
            ext
            split at hkeys <;> split at hkeys <;> omega
          subst hrank
          rcases Nat.eq_zero_or_pos xrank.val with hzero | hpos
          · exact Or.inr (by simp [key?, hzero])
          · have hneg : xneg = yneg := by
              rw [Bool.eq_iff_iff, ← signedRank_neg_iff hpos, hkeys, signedRank_neg_iff hpos]
            exact Or.inl (congrArg (signed · xrank) hneg)

theorem isZero_iff {x : Binary64} : x.isZero = true ↔ x.key? = some 0 := by
  have hzero : zero.key? = some 0 := rfl
  rw [isZero, eq, hzero]
  cases x.key? <;> simp

theorem text_of_key?_eq_zero {x : Binary64} (h : x.key? = some 0) : x.text = "0" := by
  cases x with
  | nan => cases h
  | signed negative rank =>
      have hkey := Option.some.inj h
      have hrank : rank.val = 0 := by split at hkey <;> omega
      rw [text, if_pos hrank]

theorem text_eq_of_eq {x y : Binary64} (h : x.eq y = true) : x.text = y.text := by
  rcases eq_or_key?_of_eq h with rfl | ⟨hx, hy⟩
  · rfl
  · rw [text_of_key?_eq_zero hx, text_of_key?_eq_zero hy]

/-! ## Whole magnitudes -/

theorem nearestRank_two_pow_64 : nearestRank (2 ^ 64) 1 = 1087 * 2 ^ 52 := by
  decide +kernel

/-- The magnitude of the number nearest to a natural of 64 bits is a natural of 64 bits, or the
next one. -/
theorem exists_magnitude_nearestRank {m : Nat} (h : m ≤ 2 ^ 64) :
    ∃ n : Nat, n ≤ 2 ^ 64 ∧ magnitude (nearestRank m 1) = n := by
  rcases Nat.le_total m (2 ^ 53) with hsmall | hlarge
  · exact ⟨m, h, magnitude_nearestRank hsmall⟩
  · have hlow : 2 ^ 53 ≤ magnitude (nearestRank m 1) := by
      have hrank := magnitude_strictMono.monotone (nearestRank_le hlarge)
      rw [magnitude_nearestRank le_rfl] at hrank
      exact_mod_cast hrank
    have hhigh : magnitude (nearestRank m 1) ≤ 2 ^ 64 := by
      have hrank := magnitude_strictMono.monotone (nearestRank_le h)
      have htop : magnitude (nearestRank (2 ^ 64) 1) = 2 ^ 64 := by
        rw [nearestRank_two_pow_64]
        norm_num [magnitude, significand, lastPlace]
      exact hrank.trans_eq htop
    have hwhole : magnitude (nearestRank m 1) = (significand (nearestRank m 1)
        * 2 ^ (lastPlace (nearestRank m 1)).toNat : Nat) := by
      rw [magnitude, ← Int.toNat_of_nonneg (lastPlace_nonneg hlow), zpow_natCast]
      push_cast
      rfl
    refine ⟨_, ?_, hwhole⟩
    rw [hwhole] at hhigh
    exact_mod_cast hhigh

/-! ## Texts of integers -/

theorem ofRank_inj {negative : Bool} {r s : Nat} :
    ofRank negative r = ofRank negative s ↔ min r infinityRank = min s infinityRank := by
  simp [ofRank]

theorem integerRank_eq_nearestRank {m : Nat} (h : m ≤ 2 ^ 64) :
    integerRank m = nearestRank m 1 :=
  min_eq_left (nearestRank_lt_infinityRank h).le

/-- The decimal of a whole magnitude is written as a natural whose nearest magnitude it is. -/
theorem write_shortest {m : Nat} (hm : 0 < m) (h : m ≤ 2 ^ 64) :
    let d := Decimal.shortest (integerRank m)
    0 < d.natural ∧ 0 ≤ d.exponent ∧ integerRank d.natural = integerRank m
      ∧ d.write layout = Decimal.digitsOf d.natural := by
  obtain ⟨n, hn, hmagnitude⟩ := exists_magnitude_nearestRank h
  rw [← integerRank_eq_nearestRank h] at hmagnitude
  have hpos : 0 < n := by
    have hlt := magnitude_strictMono (integerRank_pos hm)
    rw [magnitude_zero, hmagnitude] at hlt
    exact_mod_cast hlt
  obtain ⟨hcoefficient, hexponent, hnatural, hreads⟩ :=
    Decimal.isWhole_shortest hmagnitude hpos (by omega)
  refine ⟨Nat.mul_pos hcoefficient (Nat.pow_pos (by decide)), hexponent, ?_, ?_⟩
  · rw [Decimal.readsBack_iff hcoefficient hexponent hnatural] at hreads
    exact (ofRank_inj.mp hreads).trans (min_eq_left (Nat.le_of_lt_succ (integerRank_lt_succ m)))
  · have hlength := (Decimal.length_digitsOf_le_iff (k := 21) (by decide)).mpr hnatural
    exact Decimal.write_eq_digitsOf_natural hcoefficient hexponent (by decide)
      (Int.ofNat_le.mpr hlength)

/-- The text of the number nearest to an integer is its sign and a decimal. -/
theorem text_ofInt_of_ne_zero {m : Int} (hm : m ≠ 0) (h : m.natAbs ≤ 2 ^ 64) :
    (ofInt m).text = String.ofList ((if m < 0 then ['-'] else [])
      ++ (Decimal.shortest (integerRank m.natAbs)).write layout) := by
  have hpos := integerRank_pos (Int.natAbs_pos.mpr hm)
  have hfinite : integerRank m.natAbs < infinityRank := by
    rw [integerRank_eq_nearestRank h]
    exact nearestRank_lt_infinityRank h
  rw [ofInt_eq_signed, text, if_neg hpos.ne', if_neg (not_le.mpr hfinite), String.ofList_append]
  by_cases hneg : m < 0
  · simp only [hneg, decide_true, if_true]
  · simp only [hneg, decide_false, if_false, Bool.false_eq_true, String.ofList_nil,
      String.empty_append]

/-- The integer that the shortest decimal of a number is, unless that has a fraction. -/
def shownInteger? : Binary64 → Option Int
  | nan => none
  | signed negative rank =>
    let d := Decimal.shortest rank.val
    if d.exponent < 0 then none
    else some (if negative then -(d.natural : Int) else d.natural)

theorem shownInteger?_ofInt {m : Int}
    (h : 0 ≤ (Decimal.shortest (integerRank m.natAbs)).exponent) :
    (ofInt m).shownInteger?
      = some (if m < 0 then -((Decimal.shortest (integerRank m.natAbs)).natural : Int)
        else (Decimal.shortest (integerRank m.natAbs)).natural) := by
  rw [ofInt_eq_signed, shownInteger?]
  simp only [not_lt.mpr h, if_false, decide_eq_true_eq]

/-- A natural with the sign of an integer, if it is not zero. -/
theorem ofInt_withSign {m : Int} {k : Nat} (hk : 0 < k) (h : integerRank k = integerRank m.natAbs) :
    ofInt (if m < 0 then -(k : Int) else k) = ofInt m := by
  rw [ofInt_eq_iff]
  unfold integerKey
  by_cases hneg : m < 0
  · have hkneg : -(k : Int) < 0 := by omega
    simp only [hneg, hkneg, if_true, Int.natAbs_neg, Int.natAbs_natCast, h]
  · have hknonneg : ¬ (k : Int) < 0 := by omega
    simp only [hneg, hknonneg, if_false, Int.natAbs_natCast, h]

theorem integerText_withSign (m : Int) {k : Nat} (hk : 0 < k) :
    Decimal.integerText (if m < 0 then -(k : Int) else k)
      = String.ofList ((if m < 0 then ['-'] else []) ++ Decimal.digitsOf k) := by
  unfold Decimal.integerText
  by_cases hneg : m < 0
  · have hkneg : -(k : Int) < 0 := by omega
    simp only [hneg, hkneg, if_true, Int.natAbs_neg, Int.natAbs_natCast, List.singleton_append]
  · have hknonneg : ¬ (k : Int) < 0 := by omega
    simp only [hneg, hknonneg, if_false, Int.natAbs_natCast, List.nil_append]

/-- The shortest decimal of the number nearest to an integer is an integer with the same nearest
number, and its text is that of the number. -/
theorem exists_text_ofInt {m : Int} (hm : m ≠ 0) (h : m.natAbs ≤ 2 ^ 64) :
    ∃ k, (ofInt m).shownInteger? = some k ∧ ofInt k = ofInt m
      ∧ (ofInt m).text = Decimal.integerText k := by
  obtain ⟨hpos, hexponent, hrank, hwrite⟩ := write_shortest (Int.natAbs_pos.mpr hm) h
  refine ⟨_, shownInteger?_ofInt hexponent, ofInt_withSign hpos hrank, ?_⟩
  rw [text_ofInt_of_ne_zero hm h, hwrite, integerText_withSign m hpos]

/-- An integer up to 2^53 in magnitude and the number nearest to it have one text. -/
theorem text_ofInt {m : Int} (h : m.natAbs ≤ 2 ^ 53) :
    (ofInt m).text = Decimal.integerText m := by
  by_cases hzero : m = 0
  · subst hzero
    decide +kernel
  obtain ⟨k, -, hk, htext⟩ := exists_text_ofInt hzero (h.trans (by decide))
  by_cases heq : k = m
  · rw [htext, heq]
  · have hbound := le_natAbs_of_ofInt_eq heq hk
    have hedge : m = 2 ^ 53 ∨ m = -2 ^ 53 := by omega
    rcases hedge with rfl | rfl
    · decide +kernel
    · decide +kernel

end RecordQuery.Binary64
