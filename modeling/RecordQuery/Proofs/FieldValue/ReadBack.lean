import RecordQuery.Proofs.Binary64.IntegerText
import RecordQuery.Proofs.Decimal.Written
import RecordQuery.Proofs.FieldValue.ComparisonRules
import RecordQuery.Proofs.FieldValue.NumberOfText
import RecordQuery.Proofs.Number.TextCharacters

/-!
# The text of a number counts as that number

The text of a number is `NaN`, infinity with or without a sign, or a decimal
literal. The literal denotes an integer in full, or else the shortest decimal
of a magnitude, to which that magnitude is nearest
(`Decimal.isNearest_shortest`). So each text counts as the number that it
was written for, but that both zeros are written alike, and a number is
loosely equal to its own text unless it is `nan`
(`toNumber_text_eq`).
-/

namespace RecordQuery

open Binary64 (IsNearest ofRank)

/-! ## Shortest decimals -/

namespace Decimal

/-- The decimal that is taken when no shorter one is found is the magnitude itself. -/
theorem value_exact (rank : Nat) : (exact rank).value = Binary64.magnitude rank := by
  have hexponent : min (Binary64.lastPlace rank) 0 = -((-Binary64.lastPlace rank).toNat : Int) := by
    omega
  have hten : (10 : ℚ) ^ (-Binary64.lastPlace rank).toNat
      = 2 ^ (-Binary64.lastPlace rank).toNat * 5 ^ (-Binary64.lastPlace rank).toNat := by
    rw [← mul_pow]
    norm_num
  rw [value, exact, Binary64.magnitude, Binary64.two_zpow_eq]
  dsimp only
  rw [hexponent, zpow_neg, zpow_natCast, hten]
  push_cast
  field_simp

theorem readsBack_shortest (rank : Nat) : readsBack rank (shortest rank) = true := by
  rw [shortest]
  cases hfound : (List.range' 1 17).findSome? (withDigits? rank) with
  | none =>
      have hnearest := Binary64.isNearest_magnitude rank
      rw [← value_exact] at hnearest
      exact decide_eq_true (toBinary64_eq_ofRank false hnearest)
  | some d =>
      obtain ⟨count, -, hcount⟩ := List.exists_of_findSome?_eq_some hfound
      exact List.find?_some hcount

/-- Every finite magnitude is nearest to its shortest decimal. -/
theorem isNearest_shortest {rank : Nat} (h : rank < infinityRank) :
    IsNearest (shortest rank).value rank := by
  have hnearest := isNearest_value (shortest rank)
  have hreads := of_decide_eq_true (readsBack_shortest rank)
  rw [toBinary64_eq_ofRank false hnearest, Binary64.ofRank_inj] at hreads
  generalize Binary64.nearestRank _ _ = other at hnearest hreads
  obtain rfl : other = rank := by omega
  exact hnearest

theorem coefficient_shortest_pos {rank : Nat} (hpos : 0 < rank)
    (h : rank < infinityRank) : 0 < (shortest rank).coefficient := by
  refine Nat.pos_of_ne_zero fun hzero => ?_
  have hvalue : (shortest rank).value = Binary64.magnitude 0 := by
    rw [value, hzero, Nat.cast_zero, zero_mul, Binary64.magnitude_zero]
  have hnearest := isNearest_shortest h
  rw [hvalue] at hnearest
  have hrank := hnearest.unique (Binary64.isNearest_magnitude 0)
  omega

end Decimal

/-! ## Texts without white space -/

theorem Number.isBlank_eq_false {c : Char} (h : isNumberChar c = true) :
    Text.isBlank c = false := by
  have hblanks : ∀ code ∈ Text.blanks, isNumberChar (Char.ofNat code) = false := by decide
  rw [← Bool.not_eq_true]
  intro hblank
  have hchar := hblanks c.toNat (List.contains_iff_mem.mp hblank)
  rw [Char.ofNat_toNat, h] at hchar
  cases hchar

theorem Text.trim_eq_self {text : List Char} (h : ∀ c ∈ text, isBlank c = false) :
    trim text = text := by
  have hkept : ∀ cs : List Char, (∀ c ∈ cs, isBlank c = false) → cs.dropWhile isBlank = cs := by
    intro cs hcs
    cases cs with
    | nil => rfl
    | cons c rest =>
        refine List.dropWhile_cons_of_neg ?_
        rw [hcs c List.mem_cons_self]
        exact Bool.false_ne_true
  rw [trim, trimStart, hkept text h, trimEnd,
    hkept _ fun c hc => h c (List.mem_reverse.mp hc), List.reverse_reverse]

theorem Number.trim_text (n : Number) : Text.trim n.text.toList = n.text.toList :=
  Text.trim_eq_self fun c hc =>
    isBlank_eq_false (List.all_eq_true.mp (all_isNumberChar_text n) c hc)

namespace FieldValue

open Decimal (IsLiteral IsSign)

/-! ## Reading literals -/

/-- A text that is a decimal literal counts as the number nearest to what it denotes. -/
theorem toNumber_string_of_isLiteral {s : String} {negative : Bool} {magnitude : ℚ} {rank : Nat}
    (hliteral : IsLiteral (Text.trim s.toList) negative magnitude)
    (hrank : IsNearest magnitude rank) : (string s).toNumber = ofRank negative rank := by
  refine toNumber_string_of_denotes (.decimal hliteral hrank) ?_
  rintro n ⟨mark, digits, htext, hmark, -, -⟩
  have hread := Decimal.readNumeral?_eq_some_iff.mpr ⟨_, _, _, hliteral, hrank, rfl⟩
  rw [htext, Binary64.readNumeral?_hexadecimal digits hmark] at hread
  cases hread

theorem toNumber_integerText (n : Int)
    (htrim : Text.trim (Decimal.integerText n).toList = (Decimal.integerText n).toList) :
    (string (Decimal.integerText n)).toNumber = Binary64.ofInt n := by
  have hliteral : IsLiteral (Text.trim (Decimal.integerText n).toList) (decide (n < 0))
      n.natAbs := by
    rw [htrim, Decimal.integerText, String.toList_ofList]
    by_cases hneg : n < 0
    · rw [if_pos hneg, decide_eq_true hneg]
      exact Decimal.isLiteral_digitsOf .minus n.natAbs
    · rw [if_neg hneg, decide_eq_false hneg]
      exact Decimal.isLiteral_digitsOf .none n.natAbs
  rw [toNumber_string_of_isLiteral hliteral (Binary64.isNearest_natural n.natAbs)]
  rfl

/-- A finite number other than zero counts as itself when it is read back. -/
theorem toNumber_text_finite {negative : Bool} {rank : Nat} (hpos : 0 < rank)
    (hfinite : rank < infinityRank) {s : String}
    (hs : s.toList = (if negative then ['-'] else [])
      ++ (Decimal.shortest rank).write Binary64.layout)
    (htrim : Text.trim s.toList = s.toList) : (string s).toNumber = ofRank negative rank := by
  have hsign : IsSign (if negative then ['-'] else []) negative := by
    cases negative
    · exact .none
    · exact .minus
  have hliteral := Decimal.isLiteral_write hsign Binary64.layout
    (Decimal.coefficient_shortest_pos hpos hfinite)
  rw [← hs, ← htrim] at hliteral
  exact toNumber_string_of_isLiteral hliteral (Decimal.isNearest_shortest hfinite)

theorem toNumber_text_float (x : Binary64) (htrim : Text.trim x.text.toList = x.text.toList) :
    (string x.text).toNumber = if x.isZero then .zero else x := by
  by_cases hzero : x.isZero = true
  · rw [if_pos hzero, Binary64.text_of_key?_eq_zero (Binary64.isZero_iff.mp hzero)]
    decide +kernel
  rw [if_neg hzero]
  cases x with
  | nan => decide +kernel
  | signed negative rank =>
      have hpos : 0 < rank.val := by
        refine Nat.pos_of_ne_zero fun hrank => hzero (Binary64.isZero_iff.mpr ?_)
        simp [Binary64.key?, hrank]
      have hself : Binary64.signed negative rank = ofRank negative rank.val := by
        simp [ofRank, min_eq_left (Nat.le_of_lt_succ rank.isLt)]
      by_cases hfinite : rank.val < infinityRank
      · refine (toNumber_text_finite hpos hfinite ?_ htrim).trans hself.symm
        rw [Binary64.text, if_neg hpos.ne', if_neg (Nat.not_le_of_lt hfinite)]
        cases negative
        · rw [if_neg Bool.false_ne_true, if_neg Bool.false_ne_true, String.toList_ofList,
            List.nil_append]
        · rw [if_pos rfl, if_pos rfl, String.toList_append, String.toList_ofList,
            String.toList_ofList]
      · have hrank : rank.val = infinityRank := by omega
        rw [Binary64.text, if_neg hpos.ne', if_pos hrank.ge, hself, hrank]
        cases negative <;> decide +kernel

/-- Each text of a number counts as the number. -/
theorem toNumber_text (n : Number) :
    (string n.text).toNumber = if n.toBinary64.isZero then .zero else n.toBinary64 := by
  have htrim := n.trim_text
  have hinteger : ∀ m : Int, Binary64.ofInt m
      = if (Binary64.ofInt m).isZero then .zero else Binary64.ofInt m := by
    intro m
    split
    · rename_i hzero
      rw [Binary64.isZero_iff, Binary64.key?_ofInt, Option.some.injEq] at hzero
      obtain rfl : m = 0 := by
        by_contra hm
        exact Binary64.integerKey_ne_zero hm hzero
      rfl
    · rfl
  cases n with
  | signed n => exact (toNumber_integerText n.toInt htrim).trans (hinteger n.toInt)
  | unsigned n => exact (toNumber_integerText n.toNat htrim).trans (hinteger n.toNat)
  | float x => exact toNumber_text_float x htrim

/-- **The text of a number counts as that number**, in which both zeros are zero: numerically it is
the same number, so a number and its text are loosely equal, whichever comes first, unless the
number is `nan`. -/
theorem toNumber_text_eq (n : Number) :
    ((string n.text).toNumber = if n.toBinary64.isZero then .zero else n.toBinary64)
      ∧ ((string n.text).toNumber.eq n.toBinary64 = true ↔ n.toBinary64 ≠ .nan)
      ∧ ((number n).looseEq (string n.text) = true ↔ n.toBinary64 ≠ .nan)
      ∧ ((string n.text).looseEq (number n) = true ↔ n.toBinary64 ≠ .nan) := by
  have heq : (string n.text).toNumber.key? = n.toBinary64.key? := by
    rw [toNumber_text]
    split
    · rename_i hzero
      exact (Binary64.isZero_iff.mp hzero).symm
    · rfl
  have hself : (string n.text).toNumber.eq n.toBinary64 = true ↔ n.toBinary64 ≠ .nan := by
    rw [Binary64.eq, heq]
    cases n.toBinary64 <;> simp [Binary64.key?]
  refine ⟨toNumber_text n, hself, ?_, ?_⟩
  · have hloose : (number n).looseEq (string n.text)
        = n.toBinary64.eq (string n.text).toNumber := rfl
    rw [hloose, Binary64.eq_comm, hself]
  · have hloose : (string n.text).looseEq (number n)
        = (string n.text).toNumber.eq n.toBinary64 := rfl
    rw [hloose, hself]

end FieldValue

end RecordQuery
