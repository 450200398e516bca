import RecordQuery.FieldValue.Order

/-!
# The order for sorting is a total preorder

Every value has a code, a list of integers that starts with the rank of
its kind and goes on with what values of that kind are compared by. The
order for sorting is the lexicographic order of the codes
(`compareForSort_eq_compareOn`), and is a total preorder because that
one is, whatever mix of kinds is compared.
-/

namespace RecordQuery.FieldValue

/-- What numbers are compared by: `nan` comes after all others. -/
def numberCode (x : Binary64) : List Int :=
  match x.key? with
  | some place => [0, place]
  | none => [1]

/-- What values are compared by. -/
def sortCode : FieldValue → List Int
  | bool b => [0, if b then 1 else 0]
  | number n => 1 :: numberCode n.toBinary64
  | string s => 2 :: (Text.units s).map Int.ofNat
  | array _ _ => [3]
  | object _ _ => [4]
  | null => [5]
  | undefined => [6]

theorem compareLex_map_ofNat :
    ∀ xs ys : List Nat,
      List.compareLex compare (xs.map Int.ofNat) (ys.map Int.ofNat)
        = List.compareLex compare xs ys
  | [], [] => rfl
  | [], _ :: _ => rfl
  | _ :: _, [] => rfl
  | x :: xs, y :: ys => by
      have hhead : compare (Int.ofNat x) (Int.ofNat y) = compare x y := by
        simp only [compare, compareOfLessAndEq, Int.ofNat_eq_natCast, Int.ofNat_lt, Int.ofNat_inj]
      rw [List.map_cons, List.map_cons, List.compareLex_cons_cons, List.compareLex_cons_cons,
        hhead, compareLex_map_ofNat xs ys]

theorem compareNumbers_eq (x y : Binary64) :
    compareNumbers x y = List.compareLex compare (numberCode x) (numberCode y) := by
  unfold compareNumbers numberCode
  cases x.key? with
  | none => cases y.key? <;> rfl
  | some i =>
      cases y.key? with
      | none => rfl
      | some j =>
          simp only [List.compareLex_cons_cons, List.compareLex_nil_nil, Ordering.then_eq]
          rfl

/-- Values are compared by their codes. -/
theorem compareForSort_eq_compareOn : compareForSort = compareOn sortCode := by
  funext a b
  cases a with
  | bool x =>
      cases b with
      | bool y => cases x <;> cases y <;> rfl
      | _ => rfl
  | number m =>
      cases b with
      | number n =>
          exact compareNumbers_eq m.toBinary64 n.toBinary64
      | _ => rfl
  | string s =>
      cases b with
      | string t =>
          exact (compareLex_map_ofNat (Text.units s) (Text.units t)).symm
      | _ => rfl
  | _ => cases b <;> rfl

instance : Std.TransCmp compareForSort := by
  rw [compareForSort_eq_compareOn]
  infer_instance

end RecordQuery.FieldValue
