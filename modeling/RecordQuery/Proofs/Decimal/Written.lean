import RecordQuery.Decimal.Layout
import RecordQuery.Proofs.Decimal.Literals

/-!
# Decimals as they are written

A positive decimal, written in any layout, is a decimal literal that denotes
its value (`isLiteral_write`). Both notations write the same digits, with
the point behind so many of them: the value is read off digits and point
(`value_eq_significant`), and zeros on either side do not change it.
-/

namespace RecordQuery.Decimal

/-! ## Digits and point -/

theorem isRow_digitsOf (n : Nat) : IsRow (digitsOf n) where
  ne_nil := List.ne_nil_of_length_pos (length_digitsOf_pos n)
  digits := List.all_eq_true.mpr fun _ hc =>
    Nat.isDigit_of_mem_toDigits (by decide) (by decide) hc

theorem ofDigits_zeros (zeros : Nat) : ofDigits (List.replicate zeros '0') = 0 := by
  induction zeros with
  | zero => rfl
  | succ zeros ih =>
      have hzero : ofDigits ['0'] = 0 := rfl
      rw [List.replicate_succ', ofDigits_append, ih, hzero, Nat.mul_zero]

/-- Zeros before the digits do not count. -/
theorem ofDigits_zeros_append (zeros : Nat) (digits : List Char) :
    ofDigits (List.replicate zeros '0' ++ digits) = ofDigits digits := by
  rw [ofDigits_append, ofDigits_zeros, Nat.mul_zero, Nat.zero_add]

/-- Zeros behind the digits are powers of ten. -/
theorem ofDigits_append_zeros (digits : List Char) (zeros : Nat) :
    ofDigits (digits ++ List.replicate zeros '0') = 10 ^ zeros * ofDigits digits := by
  rw [ofDigits_append, ofDigits_zeros, Nat.add_zero, List.length_replicate]

theorem value_ten_pow_mul (zeros coefficient : Nat) (exponent : Int) :
    value ⟨10 ^ zeros * coefficient, exponent⟩ = value ⟨coefficient, exponent + zeros⟩ := by
  rw [value, value, zpow_add₀ (by norm_num), zpow_natCast]
  push_cast
  ring

/-- The number that digits denote with a point behind the given number of them. -/
def pointed (digits : List Char) (point : Int) : ℚ :=
  value ⟨ofDigits digits, point - digits.length⟩

theorem isRow_significant {n : Nat} (h : 0 < n) : IsRow (significant n) := by
  obtain ⟨zeros, hdigits⟩ := exists_digitsOf_eq_significant_append n
  constructor
  · intro hnil
    have hzero := ofDigits_zeros zeros
    rw [← List.nil_append (List.replicate zeros '0'), ← hnil, ← hdigits, ofDigits_digitsOf] at hzero
    omega
  · have hall := (isRow_digitsOf n).digits
    rw [hdigits, List.all_append, Bool.and_eq_true] at hall
    exact hall.1

/-- A decimal is its significant digits with the point where it falls. -/
theorem value_eq_significant (d : Decimal) :
    d.value = pointed (significant d.coefficient) d.point := by
  obtain ⟨zeros, hdigits⟩ := exists_digitsOf_eq_significant_append d.coefficient
  have hcoefficient : d.coefficient = 10 ^ zeros * ofDigits (significant d.coefficient) := by
    rw [← ofDigits_append_zeros, ← hdigits, ofDigits_digitsOf]
  have hlength := congrArg List.length hdigits
  rw [List.length_append, List.length_replicate] at hlength
  have hexponent : d.point - (significant d.coefficient).length = d.exponent + zeros := by
    unfold point
    omega
  rw [pointed, hexponent, ← value_ten_pow_mul, ← hcoefficient]

/-! ## Both notations -/

variable {sign digits : List Char} {negative : Bool}

/-- A literal is told by the digits around its point, with zeros or without, and by its exponent. -/
theorem isLiteral_of_parts {mantissa whole fraction mark : List Char} {exponent point : Int}
    (hsign : IsSign sign negative) (hmantissa : IsMantissa mantissa whole fraction)
    (hmark : IsExponent mark exponent)
    (h : value ⟨ofDigits (whole ++ fraction), exponent - fraction.length⟩ = pointed digits point) :
    IsLiteral (sign ++ (mantissa ++ mark)) negative (pointed digits point) := by
  rw [← h, value_ofDigits_append]
  exact .parts hsign hmantissa hmark

theorem isLiteral_of_mantissa {mantissa whole fraction : List Char} {point : Int}
    (hsign : IsSign sign negative) (hmantissa : IsMantissa mantissa whole fraction)
    (h : value ⟨ofDigits (whole ++ fraction), -(fraction.length : Int)⟩ = pointed digits point) :
    IsLiteral (sign ++ mantissa) negative (pointed digits point) := by
  rw [← List.append_nil mantissa]
  refine isLiteral_of_parts hsign hmantissa .none ?_
  rw [zero_sub, h]

theorem all_isDigit_zeros (zeros : Nat) : (List.replicate zeros '0').all Char.isDigit :=
  List.all_eq_true.mpr fun _ hc => (List.eq_of_mem_replicate hc) ▸ rfl

/-- With its point among zeros before the digits, among the digits, or behind zeros after them, a
number is written without an exponent. -/
theorem isLiteral_positional (hsign : IsSign sign negative) (hdigits : IsRow digits)
    (point : Int) :
    IsLiteral (sign ++ positional digits point) negative (pointed digits point) := by
  have hall := hdigits.digits
  unfold positional
  split
  · rename_i hpoint
    have hfraction : (List.replicate (-point).toNat '0' ++ digits).all Char.isDigit := by
      rw [List.all_append, all_isDigit_zeros, hall]
      rfl
    have hzero : ['0'] = List.replicate 1 '0' := rfl
    have hwhole : IsRow ['0'] := ⟨by simp, rfl⟩
    refine isLiteral_of_mantissa hsign (.pointed hwhole hfraction) ?_
    rw [hzero, ofDigits_zeros_append, ofDigits_zeros_append, pointed, List.length_append,
      List.length_replicate]
    congr 2
    omega
  · rename_i hpoint
    split
    · rename_i hlength
      rw [← List.take_append_drop point.toNat digits, List.all_append, Bool.and_eq_true] at hall
      have hne : digits.take point.toNat ≠ [] :=
        List.ne_nil_of_length_pos (by rw [List.length_take]; omega)
      refine isLiteral_of_mantissa hsign (.pointed ⟨hne, hall.1⟩ hall.2) ?_
      rw [List.take_append_drop, pointed, List.length_drop]
      congr 2
      omega
    · rename_i hlength
      have hrow : IsRow (digits ++ List.replicate (point.toNat - digits.length) '0') := by
        refine ⟨List.append_ne_nil_of_left_ne_nil hdigits.ne_nil _, ?_⟩
        rw [List.all_append, hall, all_isDigit_zeros]
        rfl
      refine isLiteral_of_mantissa hsign (.whole hrow) ?_
      rw [List.append_nil, ofDigits_append_zeros, value_ten_pow_mul, pointed, List.length_nil]
      congr 2
      omega

theorem isExponent_scientific (exponent : Int) :
    IsExponent ('e' :: (if exponent < 0 then '-' else '+') :: digitsOf exponent.natAbs)
      exponent := by
  have hsign : IsSign [if exponent < 0 then '-' else '+'] (decide (exponent < 0)) := by
    by_cases h : exponent < 0
    · rw [if_pos h, decide_eq_true h]
      exact .minus
    · rw [if_neg h, decide_eq_false h]
      exact .plus
  have hmark : 'e' = 'e' ∨ 'e' = 'E' := Or.inl rfl
  have hexponent := IsExponent.marked hmark hsign (isRow_digitsOf exponent.natAbs)
  have hvalue : (if decide (exponent < 0) = true then -(ofDigits (digitsOf exponent.natAbs) : Int)
      else ofDigits (digitsOf exponent.natAbs)) = exponent := by
    rw [ofDigits_digitsOf]
    split
    · rename_i h
      have := of_decide_eq_true h
      omega
    · rename_i h
      have : ¬ exponent < 0 := fun hneg => h (decide_eq_true hneg)
      omega
  rwa [hvalue] at hexponent

/-- With its point behind the first digit, a number has the place of that digit for exponent. -/
theorem isLiteral_scientific (hsign : IsSign sign negative) (hdigits : IsRow digits)
    (point : Int) :
    IsLiteral (sign ++ scientific digits point) negative (pointed digits point) := by
  have hmark := isExponent_scientific (point - 1)
  have hall := hdigits.digits
  obtain ⟨first, rest, rfl⟩ := List.exists_cons_of_ne_nil hdigits.ne_nil
  unfold scientific
  dsimp only
  generalize 'e' :: _ :: digitsOf (point - 1).natAbs = mark at hmark ⊢
  cases rest with
  | nil =>
      refine isLiteral_of_parts hsign (.whole hdigits) hmark ?_
      rw [pointed, List.append_nil, List.length_nil, List.length_singleton]
      congr 2
      omega
  | cons second rest =>
      rw [List.all_cons, Bool.and_eq_true] at hall
      have hfirst : IsRow [first] := ⟨by simp, by rw [List.all_cons, hall.1]; rfl⟩
      refine isLiteral_of_parts hsign (.pointed hfirst hall.2) hmark ?_
      rw [pointed, List.singleton_append, List.length_cons (a := first)]
      congr 2
      omega

/-- A positive decimal behind a sign is written as a literal that denotes its value. -/
theorem isLiteral_write (hsign : IsSign sign negative) (layout : Layout) {d : Decimal}
    (h : 0 < d.coefficient) : IsLiteral (sign ++ d.write layout) negative d.value := by
  rw [value_eq_significant, write]
  split
  · exact isLiteral_positional hsign (isRow_significant h) d.point
  · exact isLiteral_scientific hsign (isRow_significant h) d.point

/-- So is a natural. -/
theorem isLiteral_digitsOf (hsign : IsSign sign negative) (n : Nat) :
    IsLiteral (sign ++ digitsOf n) negative n := by
  have hvalue : pointed (digitsOf n) (digitsOf n).length = n := by
    rw [pointed, sub_self, value, ofDigits_digitsOf, zpow_zero, mul_one]
  rw [← hvalue]
  refine isLiteral_of_mantissa hsign (.whole (isRow_digitsOf n)) ?_
  rw [List.append_nil, List.length_nil, Nat.cast_zero, neg_zero, pointed, sub_self]

end RecordQuery.Decimal
