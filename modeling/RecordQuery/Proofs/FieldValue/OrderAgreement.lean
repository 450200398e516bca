import RecordQuery.FieldValue.Equality
import RecordQuery.Proofs.FieldValue.SortOrder
import RecordQuery.Proofs.Text.Units

/-!
# The order for sorting agrees with the operators

The order for sorting places all values, whatever their kinds. Two values of
one kind that operators compare as they are, which are texts, truth values
and numbers other than `nan` (`ComparedAlike`), have the same order in both
(`compareRelational?_eq_compareForSort`), and are equal in it if they are
strictly equal (`compareForSort_eq_iff_strictEq`).
-/

namespace RecordQuery

namespace FieldValue

/-- Both values are truth values, both are texts, or both are numbers and neither is `nan`. -/
inductive ComparedAlike : FieldValue → FieldValue → Prop where
  | bools (a b : Bool) : ComparedAlike (bool a) (bool b)
  | strings (s t : String) : ComparedAlike (string s) (string t)
  | numbers {m n : Number} : m.toBinary64 ≠ .nan → n.toBinary64 ≠ .nan →
      ComparedAlike (number m) (number n)

theorem exists_key? {x : Binary64} (h : x ≠ .nan) : ∃ place, x.key? = some place := by
  cases x with
  | nan => exact absurd rfl h
  | signed negative rank => exact ⟨_, rfl⟩

variable {a b c : FieldValue}

/-- What both orders place, they place alike. -/
theorem compareRelational?_eq_compareForSort (h : ComparedAlike a b) :
    a.compareRelational? b = some (compareForSort a b) := by
  cases h with
  | bools a b => cases a <;> cases b <;> decide +kernel
  | strings s t => rfl
  | @numbers m n hm hn =>
      obtain ⟨i, hi⟩ := exists_key? hm
      obtain ⟨j, hj⟩ := exists_key? hn
      have hrelational : (number m).compareRelational? (number n)
          = m.toBinary64.compare? n.toBinary64 := rfl
      have hsort : compareForSort (number m) (number n)
          = compareNumbers m.toBinary64 n.toBinary64 := rfl
      rw [hrelational, hsort, Binary64.compare?, compareNumbers, hi, hj]

theorem compareForSort_eq_iff_strictEq (h : ComparedAlike a b) :
    compareForSort a b = .eq ↔ a.strictEq b = true := by
  cases h with
  | bools a b => cases a <;> cases b <;> decide
  | strings s t => exact Text.compareUnits_eq_iff.trans beq_iff_eq.symm
  | @numbers m n hm hn =>
      obtain ⟨i, hi⟩ := exists_key? hm
      obtain ⟨j, hj⟩ := exists_key? hn
      have hequal : (number m).strictEq (number n) = m.toBinary64.eq n.toBinary64 := rfl
      have hsort : compareForSort (number m) (number n)
          = compareNumbers m.toBinary64 n.toBinary64 := rfl
      rw [hequal, hsort, Binary64.eq, compareNumbers, hi, hj]
      dsimp only
      rw [beq_iff_eq, Int.compare_eq_eq]

/-- Two steps that do not lead down are one step that does not, and one up if either is. -/
theorem compareForSort_trans (hab : compareForSort a b ≠ .gt) (hbc : compareForSort b c ≠ .gt) :
    compareForSort a c = (compareForSort a b).then (compareForSort b c) := by
  cases h : compareForSort a b with
  | lt => exact Std.TransCmp.lt_of_lt_of_isLE h (Ordering.isLE_iff_ne_gt.mpr hbc)
  | eq => exact Std.TransCmp.congr_left h
  | gt => exact absurd h hab

/-- **The order for sorting is a total preorder that agrees with the operators.** Every value is
equal to itself in it, to swap two values reverses it, and it is transitive, where it is strict if
one of the two steps is. Truth values, texts and numbers other than `nan` have the same order
among themselves in the relations, and are equal in it exactly if they are strictly equal. -/
theorem compareForSort_preorder_agrees :
    (∀ a : FieldValue, compareForSort a a = .eq)
    ∧ (∀ a b : FieldValue, compareForSort b a = (compareForSort a b).swap)
    ∧ (∀ a b c : FieldValue, compareForSort a b ≠ .gt → compareForSort b c ≠ .gt →
      compareForSort a c = (compareForSort a b).then (compareForSort b c))
    ∧ ∀ a b : FieldValue, ComparedAlike a b →
      a.compareRelational? b = some (compareForSort a b)
        ∧ (compareForSort a b = .eq ↔ a.strictEq b = true) :=
  ⟨fun _ => Std.ReflCmp.compare_self, fun _ _ => Std.OrientedCmp.eq_swap,
    fun _ _ _ => compareForSort_trans,
    fun _ _ h => ⟨compareRelational?_eq_compareForSort h, compareForSort_eq_iff_strictEq h⟩⟩

/-- Minus zero and the integer zero are tied, a number is before `nan`, which is before any text,
and the pair of surrogates of a character is before a character that has a lesser code. -/
theorem compareForSort_preorder_agrees_across_kinds :
    let minusZero : FieldValue := number (.float (.ofRank true 0))
    let zero : FieldValue := number (.unsigned 0)
    let noNumber : FieldValue := number (.float .nan)
    (compareForSort minusZero zero ≠ .gt ∧ compareForSort zero noNumber ≠ .gt
        ∧ compareForSort minusZero noNumber
          = (compareForSort minusZero zero).then (compareForSort zero noNumber))
      ∧ (ComparedAlike minusZero zero ∧ minusZero.compareRelational? zero = some .eq
        ∧ minusZero.strictEq zero = true)
      ∧ ComparedAlike (string "\uffff") (string "😀")
      ∧ (string "\uffff").compareRelational? (string "😀")
        = some (compareForSort (string "\uffff") (string "😀"))
      ∧ compareForSort (string "\uffff") (string "😀") = .gt := by
  intro minusZero zero noNumber
  obtain ⟨-, -, htrans, hagree⟩ := compareForSort_preorder_agrees
  have hstep : compareForSort minusZero zero = .eq := by decide +kernel
  have hstep' : compareForSort zero noNumber = .lt := by decide +kernel
  have hzeros : ComparedAlike minusZero zero := .numbers nofun nofun
  obtain ⟨hrelational, hequal⟩ := hagree _ _ hzeros
  have htexts : ComparedAlike (string "\uffff") (string "😀") := .strings _ _
  refine ⟨⟨by simp [hstep], by simp [hstep'], ?_⟩, ⟨hzeros, ?_, hequal.mp hstep⟩, htexts,
    (hagree _ _ htexts).1, by decide +kernel⟩
  · exact htrans _ _ _ (by simp [hstep]) (by simp [hstep'])
  · rw [hrelational, hstep]

end FieldValue

end RecordQuery
