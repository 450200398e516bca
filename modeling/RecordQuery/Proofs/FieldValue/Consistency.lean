import RecordQuery.Proofs.FieldValue.ComparisonRules
import RecordQuery.Proofs.Text.Units

/-!
# How the comparisons go together

Loose equality, strict equality and the relational order look into three
tables of their own. What ties them together: each operator has a converse
that says the same of the swapped sides (`Operator.apply_swap`); strict
equality is loose equality within one kind (`strictEq_eq`), and the equality
of list membership is the strict one but for `nan` (`sameValueZero_eq`); and
loose equality is to have the same place in the relational order, unless a
side is nothing or both are containers (`looseEq_iff_compareRelational?`).

For the last of these the container rule is gone, since a container beside
another value is its text, and what is left are nine pairs of primitive
values (`Primitive.looseEq_iff_compare?`). Two texts are equal as texts in
both tables, and all other pairs are equal as numbers.
-/

namespace RecordQuery

/-! ## Primitive values -/

theorem Binary64.eq_iff_compare? (x y : Binary64) :
    x.eq y = true ↔ x.compare? y = some .eq := by
  unfold eq compare?
  cases x.key? with
  | none => simp
  | some i =>
      cases y.key? with
      | none => simp
      | some j => rw [beq_iff_eq, Option.some.injEq, Int.compare_eq_eq]

namespace Primitive

/-- The value is `undefined` or `null`. -/
def isNothing : Primitive → Bool
  | undefined | null => true
  | _ => false

/-- The relational order of primitive values. -/
def compare? : Primitive → Primitive → Option Ordering
  | string s, string t => some (Text.compareUnits s t)
  | p, q => p.toNumber.compare? q.toNumber

/-- Primitive values other than nothing are equal if they have the same place in the order. -/
theorem looseEq_iff_compare? : ∀ {p q : Primitive}, p.isNothing = false → q.isNothing = false →
    (p.looseEq q = true ↔ p.compare? q = some .eq)
  | string s, string t, _, _ => by
      rw [looseEq, compare?, beq_iff_eq, Option.some.injEq, Text.compareUnits_eq_iff]
  | bool a, bool b, _, _ => by cases a <;> cases b <;> decide +kernel
  | bool _, number _, _, _ | bool _, string _, _, _ | number _, bool _, _, _
  | number _, number _, _, _ | number _, string _, _, _ | string _, bool _, _, _
  | string _, number _, _, _ => Binary64.eq_iff_compare? _ _

end Primitive

namespace FieldValue

variable {a b : FieldValue}

theorem isNothing_toPrimitive (h : a.kind ≠ .undefined ∧ a.kind ≠ .null) :
    a.toPrimitive.isNothing = false := by
  cases a with
  | undefined => exact absurd rfl h.1
  | null => exact absurd rfl h.2
  | _ => rfl

theorem compareRelational?_eq (a b : FieldValue) :
    a.compareRelational? b = a.toPrimitive.compare? b.toPrimitive := by
  unfold compareRelational?
  cases a.toPrimitive <;> cases b.toPrimitive <;> rfl

/-! ## Loose equality and the order -/

/-- Values that are not both containers are compared as primitive ones. -/
theorem looseEq_of_not_containers (h : ¬ (a.kind = .container ∧ b.kind = .container)) :
    a.looseEq b = a.toPrimitive.looseEq b.toPrimitive := by
  by_cases ha : a.kind = .container
  · exact looseEq_of_kind_right a fun hb => h ⟨ha, hb⟩
  · exact looseEq_of_kind_left ha b

/-- Two containers are left out since they are ordered by their texts, and nothing since `null`
has the place of zero. -/
theorem looseEq_iff_compareRelational? (ha : a.kind ≠ .undefined ∧ a.kind ≠ .null)
    (hb : b.kind ≠ .undefined ∧ b.kind ≠ .null)
    (h : ¬ (a.kind = .container ∧ b.kind = .container)) :
    a.looseEq b = true ↔ a.compareRelational? b = some .eq := by
  rw [looseEq_of_not_containers h, compareRelational?_eq]
  exact Primitive.looseEq_iff_compare? (isNothing_toPrimitive ha) (isNothing_toPrimitive hb)

/-! ## Strict equality and the loose one -/

theorem strictEq_of_kind_ne (h : a.kind ≠ b.kind) : a.strictEq b = false := by
  cases a <;> cases b <;> first | rfl | exact absurd rfl h

/-- Strict equality is loose equality of values of one kind. -/
theorem strictEq_eq (a b : FieldValue) :
    a.strictEq b = (decide (a.kind = b.kind) && a.looseEq b) := by
  by_cases h : a.kind = b.kind
  · rw [strictEq_of_kind_eq h, decide_eq_true h, Bool.true_and]
  · rw [strictEq_of_kind_ne h, decide_eq_false h, Bool.false_and]

theorem strictEq_comm (a b : FieldValue) : a.strictEq b = b.strictEq a := by
  rw [strictEq_eq, strictEq_eq, looseEq_comm]
  simp only [eq_comm]

/-- The value is the number `nan`. -/
def isNaN : FieldValue → Bool
  | number n => n.toBinary64.isNaN
  | _ => false

theorem sameValueZero_eq (a b : FieldValue) :
    a.sameValueZero b = (a.strictEq b || (a.isNaN && b.isNaN)) := by
  cases a with
  | number m =>
      cases b with
      | number n => rfl
      | _ => simp [sameValueZero, isNaN]
  | _ => simp [sameValueZero, isNaN]

theorem sameValueZero_comm (a b : FieldValue) : a.sameValueZero b = b.sameValueZero a := by
  rw [sameValueZero_eq, sameValueZero_eq, strictEq_comm, Bool.and_comm]

theorem strictEq_of_isNaN (ha : a.isNaN = true) (b : FieldValue) : a.strictEq b = false := by
  cases a with
  | number m =>
      cases b with
      | number n =>
          have hnan : m.toBinary64 = .nan := by
            cases hm : m.toBinary64 with
            | nan => rfl
            | signed negative rank => simp [isNaN, Binary64.isNaN, hm] at ha
          rw [strictEq, hnan]
          rfl
      | _ => rfl
  | _ => cases ha

end FieldValue

/-! ## The operators -/

namespace Operator

open FieldValue

/-- The operator that says the same of two values with the sides swapped. -/
def converse : Operator → Operator
  | gt => lt
  | ge => le
  | lt => gt
  | le => ge
  | op => op

theorem holdsOf_map_swap (op : Operator) (order : Option Ordering) :
    op.holdsOf (order.map Ordering.swap) = op.converse.holdsOf order := by
  cases order with
  | none => rfl
  | some o => cases op <;> cases o <;> rfl

theorem apply_swap (op : Operator) (a b : FieldValue) :
    op.apply b a = op.converse.apply a b := by
  have horder (op : Operator) : op.holdsOf (b.compareRelational? a)
      = op.converse.holdsOf (a.compareRelational? b) := by
    rw [compareRelational?_swap, holdsOf_map_swap]
  cases op with
  | eq => exact looseEq_comm b a
  | ne => exact congrArg (!·) (looseEq_comm b a)
  | strictEq => exact strictEq_comm b a
  | strictNe => exact congrArg (!·) (strictEq_comm b a)
  | gt => exact horder gt
  | ge => exact horder ge
  | lt => exact horder lt
  | le => exact horder le

/-- What is not below is above or level, and what is not above is below or level. -/
theorem holdsOf_ge_le (order : Option Ordering) :
    ge.holdsOf order = (gt.holdsOf order || order == some .eq)
      ∧ le.holdsOf order = (lt.holdsOf order || order == some .eq) := by
  cases order with
  | none => decide
  | some o => cases o <;> decide

/-- **The comparisons are consistent with each other.** With the sides swapped, the equalities say
the same, and a relational operator says what its converse says. Values that are strictly equal
are loosely equal, and the other way round if they are of one kind; and membership takes two
values for equal that are not strictly equal just if both are `nan`. If neither value is
nothing and not both are containers, then they are loosely equal exactly if they are level in
the relational order, and so at least is above or equal, and at most is below or equal. -/
theorem apply_consistent (a b : FieldValue) :
    ((∀ op : Operator, op.apply b a = op.converse.apply a b)
      ∧ b.sameValueZero a = a.sameValueZero b)
    ∧ ((strictEq.apply a b = true → eq.apply a b = true)
      ∧ (a.kind = b.kind → eq.apply a b = strictEq.apply a b)
      ∧ (a.sameValueZero b ≠ strictEq.apply a b ↔ a.isNaN = true ∧ b.isNaN = true))
    ∧ ((a.kind ≠ .undefined ∧ a.kind ≠ .null) → (b.kind ≠ .undefined ∧ b.kind ≠ .null) →
      ¬ (a.kind = .container ∧ b.kind = .container) →
      (eq.apply a b = true ↔ a.compareRelational? b = some .eq)
        ∧ ge.apply a b = (gt.apply a b || eq.apply a b)
        ∧ le.apply a b = (lt.apply a b || eq.apply a b)) := by
  refine ⟨⟨fun op => apply_swap op a b, sameValueZero_comm b a⟩, ⟨?_, ?_, ?_⟩, ?_⟩
  · intro h
    have hstrict : (decide (a.kind = b.kind) && a.looseEq b) = true := strictEq_eq a b ▸ h
    exact (Bool.and_eq_true_iff.mp hstrict).2
  · intro hkind
    exact (strictEq_of_kind_eq hkind).symm
  · rw [sameValueZero_eq, ← Bool.and_eq_true_iff]
    cases hnan : a.isNaN && b.isNaN with
    | false => simp [apply]
    | true =>
        have hstrict := strictEq_of_isNaN (Bool.and_eq_true_iff.mp hnan).1 b
        simp [apply, hstrict]
  · intro ha hb hcontainers
    have hlevel := looseEq_iff_compareRelational? ha hb hcontainers
    have hequal : (a.compareRelational? b == some .eq) = a.looseEq b := by
      rw [Bool.eq_iff_iff, hlevel, beq_iff_eq]
    obtain ⟨hge, hle⟩ := holdsOf_ge_le (a.compareRelational? b)
    rw [hequal] at hge hle
    exact ⟨hlevel, hge, hle⟩

/-- An array is equal to the truth value that its text is the number of, and therefore at least
and at most that; and an integer is strictly equal to the float of the same value. -/
theorem apply_consistent_across_kinds :
    let record : Json := .object [("kept", .array [.array [.string "1"]])]
    let kept : FieldValue := (⟨"kept.0"⟩ : FieldPath).resolve record
    let given : FieldValue := .bool true
    let integer : FieldValue := .number (.unsigned 1)
    let float : FieldValue := .number (.float (.ofInt 1))
    (kept.kind ≠ .undefined ∧ kept.kind ≠ .null) ∧ (given.kind ≠ .undefined ∧ given.kind ≠ .null)
      ∧ ¬ (kept.kind = .container ∧ given.kind = .container)
      ∧ kept.compareRelational? given = some .eq ∧ eq.apply kept given = true
      ∧ ge.apply kept given = (gt.apply kept given || eq.apply kept given)
      ∧ lt.apply given kept = gt.apply kept given
      ∧ strictEq.apply integer float = true ∧ eq.apply integer float = true
      ∧ integer.kind = float.kind ∧ eq.apply integer float = strictEq.apply integer float := by
  intro record kept given integer float
  have hkept : kept.kind ≠ .undefined ∧ kept.kind ≠ .null := by decide
  have hgiven : given.kind ≠ .undefined ∧ given.kind ≠ .null := by decide
  have hcontainers : ¬ (kept.kind = .container ∧ given.kind = .container) := by decide
  have hequal : eq.apply kept given = true := by decide +kernel
  have hstrict : strictEq.apply integer float = true := by decide +kernel
  obtain ⟨⟨hswap, -⟩, -, horder⟩ := apply_consistent kept given
  obtain ⟨hlevel, hge, -⟩ := horder hkept hgiven hcontainers
  obtain ⟨-, ⟨himplied, hsame, -⟩, -⟩ := apply_consistent integer float
  exact ⟨hkept, hgiven, hcontainers, hlevel.mp hequal, hequal, hge, hswap lt, hstrict,
    himplied hstrict, rfl, hsame rfl⟩

end Operator

end RecordQuery
