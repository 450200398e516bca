import RecordQuery.Number

/-!
# Characters of a number

Whatever number it is, its text has only digits, the signs of a decimal,
and the letters of `NaN` and `Infinity` (`isNumberChar`). So no text of a
number has a bracket or a quote in it, nor is it a word such as `null`.
-/

namespace RecordQuery

/-! ## Decimals -/

namespace Decimal

/-- A character that the text of a decimal may have. -/
def isDecimalChar (c : Char) : Bool :=
  c.isDigit || ['.', 'e', '+', '-'].contains c

theorem isDecimalChar_of_isDigit {c : Char} (h : c.isDigit = true) : isDecimalChar c = true := by
  rw [isDecimalChar, h, Bool.true_or]

theorem all_digitsOf (n : Nat) : (digitsOf n).all isDecimalChar :=
  List.all_eq_true.mpr fun _ hc =>
    isDecimalChar_of_isDigit (Nat.isDigit_of_mem_toDigits (by decide) (by decide) hc)

theorem all_significant (n : Nat) : (significant n).all isDecimalChar := by
  rw [List.all_eq_true]
  intro c hc
  have hmem : c ∈ (digitsOf n).reverse :=
    (List.dropWhile_suffix _).subset (List.mem_reverse.mp hc)
  exact List.all_eq_true.mp (all_digitsOf n) c (List.mem_reverse.mp hmem)

theorem all_zeros (n : Nat) : (List.replicate n '0').all isDecimalChar :=
  List.all_eq_true.mpr fun _ hc => (List.eq_of_mem_replicate hc) ▸ rfl

theorem all_positional {digits : List Char} (h : digits.all isDecimalChar) (point : Int) :
    (positional digits point).all isDecimalChar := by
  unfold positional
  split
  · simp only [List.all_cons, List.all_append, all_zeros, h, Bool.and_true]
    rfl
  · split
    · have hboth := h
      rw [← List.take_append_drop point.toNat digits, List.all_append, Bool.and_eq_true] at hboth
      rw [List.all_append, List.all_cons, hboth.1, hboth.2]
      rfl
    · rw [List.all_append, h, all_zeros]
      rfl

theorem all_scientific {digits : List Char} (h : digits.all isDecimalChar) (point : Int) :
    (scientific digits point).all isDecimalChar := by
  have hexponent : ('e' :: (if point - 1 < 0 then '-' else '+')
      :: digitsOf (point - 1).natAbs).all isDecimalChar := by
    rw [List.all_cons, List.all_cons, all_digitsOf]
    split <;> rfl
  unfold scientific
  dsimp only
  rw [List.all_append, hexponent, Bool.and_true]
  split
  · simp only [List.all_cons, Bool.and_eq_true] at h ⊢
    exact ⟨h.1, rfl, h.2⟩
  · exact h

theorem all_write (layout : Layout) (d : Decimal) : (d.write layout).all isDecimalChar := by
  unfold write
  dsimp only
  split
  · exact all_positional (all_significant d.coefficient) d.point
  · exact all_scientific (all_significant d.coefficient) d.point

theorem all_integerText (n : Int) : (integerText n).toList.all isDecimalChar := by
  rw [integerText, String.toList_ofList]
  split
  · rw [List.all_cons, all_digitsOf]
    rfl
  · exact all_digitsOf n.natAbs

end Decimal

/-! ## Numbers -/

namespace Number

/-- A character that the text of a number may have. -/
def isNumberChar (c : Char) : Bool :=
  Decimal.isDecimalChar c || "NaNInfinity".toList.contains c

theorem all_isNumberChar_of_decimal {text : List Char} (h : text.all Decimal.isDecimalChar) :
    text.all isNumberChar := by
  rw [List.all_eq_true] at h ⊢
  intro c hc
  rw [isNumberChar, h c hc, Bool.true_or]

/-- A sign may stand before any text of number characters. -/
theorem all_isNumberChar_signed (negative : Bool) {magnitude : String}
    (h : magnitude.toList.all isNumberChar) :
    (if negative then "-" ++ magnitude else magnitude).toList.all isNumberChar := by
  cases negative with
  | false => exact h
  | true =>
      rw [if_pos rfl, String.toList_append, List.all_append, h, Bool.and_true]
      rfl

theorem all_isNumberChar_text_float (x : Binary64) : x.text.toList.all isNumberChar := by
  cases x with
  | nan => decide
  | signed negative rank =>
      rw [Binary64.text]
      split
      · decide
      · apply all_isNumberChar_signed
        split
        · decide
        · rw [String.toList_ofList]
          exact all_isNumberChar_of_decimal (Decimal.all_write _ _)

/-- The text of a number has no characters but those of numbers. -/
theorem all_isNumberChar_text (n : Number) : n.text.toList.all isNumberChar := by
  cases n with
  | signed n => exact all_isNumberChar_of_decimal (Decimal.all_integerText n.toInt)
  | unsigned n => exact all_isNumberChar_of_decimal (Decimal.all_integerText n.toNat)
  | float x => exact all_isNumberChar_text_float x

end Number

end RecordQuery
