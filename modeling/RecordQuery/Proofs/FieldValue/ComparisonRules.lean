import RecordQuery.Operator
import RecordQuery.Proofs.FieldValue.Places

/-!
# The rules of comparison

What the operators have to say of two values, as rules that replace values
until both are of one kind. Values of one kind are compared as such. Of
two kinds one value is replaced, by its number or a container by its text,
and the comparison begins anew (`equalLoosely`). A value is less than
another by their texts, or by their numbers if they are not both texts
(`lessThan?`). Which containers are one and the same is a parameter of the
rules (`identical`).

The operators know no restart, they look into one table of primitive
values. But no replacement changes what that table says
(`looseEq_asNumber_right`, `looseEq_asScalar_right`), so they follow the
rules, with containers of one storage taken for the same. By storage and
not by place two arrays without elements are equal wherever they stand,
and that is the only exception (`apply_eq_verdict`).
-/

namespace RecordQuery

/-! ## Orders of texts and numbers -/

theorem compareLex_eq_lt_iff :
    ∀ {xs ys : List Nat}, List.compareLex compare xs ys = .lt ↔ xs < ys
  | [], [] => by simp [List.compareLex_nil_nil]
  | [], _ :: _ => by simp [List.compareLex_nil_cons]
  | _ :: _, [] => by simp [List.compareLex_cons_nil]
  | x :: xs, y :: ys => by
      rw [List.compareLex_cons_cons, Ordering.then_eq_lt, compareLex_eq_lt_iff,
        List.cons_lt_cons_iff, Nat.compare_eq_lt, Nat.compare_eq_eq]

theorem Text.compareUnits_eq_lt_iff {s t : String} :
    compareUnits s t = .lt ↔ units s < units t :=
  compareLex_eq_lt_iff

theorem Text.compareUnits_swap (s t : String) :
    compareUnits t s = (compareUnits s t).swap := by
  unfold compareUnits
  exact Std.OrientedCmp.eq_swap

/-- Whether a number is less than another, unless one of them is `nan`. -/
def Binary64.lessThan? (x y : Binary64) : Option Bool :=
  match x.key?, y.key? with
  | some i, some j => some (decide (i < j))
  | _, _ => none

theorem Binary64.compare?_swap (x y : Binary64) :
    y.compare? x = (x.compare? y).map Ordering.swap := by
  unfold compare?
  cases x.key? <;> cases y.key? <;> simp [Int.compare_swap]

theorem Binary64.map_compare? (x y : Binary64) :
    (x.compare? y).map (· == .lt) = x.lessThan? y := by
  unfold compare? lessThan?
  cases x.key? with
  | none => rfl
  | some i =>
      cases y.key? with
      | none => rfl
      | some j =>
          have hless : (compare i j == .lt) = decide (i < j) := by
            rw [Bool.eq_iff_iff, beq_iff_eq, decide_eq_true_eq]
            exact Int.compare_eq_lt
          exact congrArg some hless

theorem Binary64.eq_comm (x y : Binary64) : x.eq y = y.eq x := by
  unfold eq
  cases x.key? <;> cases y.key? <;> simp [Bool.beq_comm]

theorem Primitive.looseEq_comm (p q : Primitive) : p.looseEq q = q.looseEq p := by
  cases p <;> cases q <;> simp [looseEq, Binary64.eq_comm, Bool.beq_comm]

namespace FieldValue

/-! ## The rules -/

/-- The kinds that the rules tell apart. An array and an object are of one kind. -/
inductive Kind where
  | undefined
  | null
  | bool
  | number
  | string
  | container
  deriving DecidableEq

def kind : FieldValue → Kind
  | undefined => .undefined
  | null => .null
  | bool _ => .bool
  | number _ => .number
  | string _ => .string
  | array _ _ | object _ _ => .container

/-- The number that the rules take a value for. -/
def numeral : FieldValue → Binary64
  | undefined => .nan
  | null => .zero
  | bool b => .ofInt (if b then 1 else 0)
  | number n => n.toBinary64
  | v => .ofText v.text

/-- The number of a value in its place. -/
def asNumber (v : FieldValue) : FieldValue :=
  number (.float v.numeral)

/-- The text of a container in its place. -/
def asScalar (v : FieldValue) : FieldValue :=
  if v.kind = .container then string v.text else v

/-- Strict equality: two values of one kind that are equal as those of that kind are. -/
def equalStrictly (identical : FieldValue → FieldValue → Bool) (a b : FieldValue) : Bool :=
  match a, b with
  | undefined, undefined | null, null => true
  | bool x, bool y => x == y
  | number m, number n => m.toBinary64.eq n.toBinary64
  | string s, string t => s == t
  | a, b => a.kind = .container && b.kind = .container && identical a b

/-- How often a value of the kind can be replaced. -/
def Kind.replacements : Kind → Nat
  | container => 2
  | bool | string => 1
  | undefined | null | number => 0

/-- Loose equality. Values of one kind are compared strictly. Of two kinds only `undefined` and
`null` are equal as they are; otherwise one value is replaced and the comparison begins anew. -/
def equalLoosely (identical : FieldValue → FieldValue → Bool) (a b : FieldValue) : Bool :=
  if a.kind = b.kind then equalStrictly identical a b
  else
    match _ha : a.kind, _hb : b.kind with
    | .undefined, .null | .null, .undefined => true
    | .number, .string => equalLoosely identical a b.asNumber
    | .string, .number => equalLoosely identical a.asNumber b
    | .bool, _ => equalLoosely identical a.asNumber b
    | _, .bool => equalLoosely identical a b.asNumber
    | .number, .container | .string, .container => equalLoosely identical a b.asScalar
    | .container, .number | .container, .string => equalLoosely identical a.asScalar b
    | _, _ => false
termination_by a.kind.replacements + b.kind.replacements
decreasing_by all_goals simp_all [Kind.replacements, asNumber, asScalar, kind]

/-- Whether a value is less than another, neither of them a container. Texts are compared by
their UTF-16 units and all else by numbers. -/
def scalarLessThan? (a b : FieldValue) : Option Bool :=
  match a, b with
  | string s, string t => some (decide (Text.units s < Text.units t))
  | a, b => a.numeral.lessThan? b.numeral

/-- Whether a value is less than another. That is undecided if a number is `nan`. -/
def lessThan? (a b : FieldValue) : Option Bool :=
  scalarLessThan? a.asScalar b.asScalar

end FieldValue

/-- What the rules say of two values. -/
def Operator.verdict (identical : FieldValue → FieldValue → Bool) (op : Operator)
    (a b : FieldValue) : Bool :=
  match op with
  | eq => FieldValue.equalLoosely identical a b
  | ne => !FieldValue.equalLoosely identical a b
  | strictEq => FieldValue.equalStrictly identical a b
  | strictNe => !FieldValue.equalStrictly identical a b
  | lt => a.lessThan? b == some true
  | gt => b.lessThan? a == some true
  | ge => a.lessThan? b == some false
  | le => b.lessThan? a == some false

namespace FieldValue

/-! ## Replacing a value -/

theorem toPrimitive_asNumber (v : FieldValue) : v.asNumber.toPrimitive = .number v.numeral :=
  rfl

theorem toPrimitive_asScalar (v : FieldValue) : v.asScalar.toPrimitive = v.toPrimitive := by
  cases v <;> rfl

theorem kind_asScalar_ne (v : FieldValue) : v.asScalar.kind ≠ .container := by
  cases v <;> simp [asScalar, kind]

theorem storage?_eq_none {v : FieldValue} (h : v.kind ≠ .container) : v.storage? = none := by
  cases v with
  | array _ _ | object _ _ => exact absurd rfl h
  | _ => rfl

/-- Values are compared as primitive ones, unless both are containers. -/
theorem looseEq_of_kind_left {a : FieldValue} (h : a.kind ≠ .container) (b : FieldValue) :
    a.looseEq b = a.toPrimitive.looseEq b.toPrimitive := by
  rw [looseEq, storage?_eq_none h]

theorem looseEq_of_kind_right (a : FieldValue) {b : FieldValue} (h : b.kind ≠ .container) :
    a.looseEq b = a.toPrimitive.looseEq b.toPrimitive := by
  rw [looseEq, storage?_eq_none h]
  cases a.storage? <;> rfl

theorem looseEq_comm (a b : FieldValue) : a.looseEq b = b.looseEq a := by
  unfold looseEq
  cases a.storage? with
  | none => cases b.storage? <;> exact Primitive.looseEq_comm _ _
  | some p =>
      cases b.storage? with
      | none => exact Primitive.looseEq_comm _ _
      | some q => exact Bool.beq_comm

/-- A container may be replaced by its text beside any other value. -/
theorem looseEq_asScalar_right {a : FieldValue} (ha : a.kind ≠ .container) (b : FieldValue) :
    a.looseEq b.asScalar = a.looseEq b := by
  rw [looseEq_of_kind_left ha, looseEq_of_kind_left ha, toPrimitive_asScalar]

/-- A truth value may be replaced by its number beside any value of another kind, and a text
beside a number. -/
theorem looseEq_asNumber_right {a b : FieldValue} (hne : a.kind ≠ b.kind)
    (hb : b.kind = .bool ∨ a.kind = .number ∧ b.kind = .string) :
    a.looseEq b.asNumber = a.looseEq b := by
  have hnumber : b.asNumber.kind ≠ .container := by simp [asNumber, kind]
  have hscalar : b.kind ≠ .container := by
    rcases hb with hb | ⟨-, hb⟩ <;> simp [hb]
  rw [looseEq_of_kind_right a hnumber, looseEq_of_kind_right a hscalar, toPrimitive_asNumber]
  cases b with
  | bool y =>
      cases a with
      | bool x => exact absurd rfl hne
      | _ => rfl
  | string s =>
      cases a with
      | number m => rfl
      | _ => simp [kind] at hb
  | _ => simp [kind] at hb

theorem looseEq_asScalar_left (a : FieldValue) {b : FieldValue} (hb : b.kind ≠ .container) :
    a.asScalar.looseEq b = a.looseEq b := by
  rw [looseEq_comm, looseEq_asScalar_right hb, looseEq_comm]

theorem looseEq_asNumber_left {a b : FieldValue} (hne : a.kind ≠ b.kind)
    (ha : a.kind = .bool ∨ b.kind = .number ∧ a.kind = .string) :
    a.asNumber.looseEq b = a.looseEq b := by
  rw [looseEq_comm, looseEq_asNumber_right hne.symm ha, looseEq_comm]

/-- Nothing is equal to nothing alone. -/
theorem looseEq_of_nothing {a : FieldValue} (ha : a.kind = .undefined ∨ a.kind = .null)
    (b : FieldValue) : a.looseEq b = decide (b.kind = .undefined ∨ b.kind = .null) := by
  have hscalar : a.kind ≠ .container := by
    rcases ha with ha | ha <;> simp [ha]
  rw [looseEq_of_kind_left hscalar]
  cases a with
  | undefined | null => cases b <;> rfl
  | _ => simp [kind] at ha

/-! ## Containers -/

theorem exists_storage {v : FieldValue} (h : v.kind = .container) :
    ∃ storage, v.storage? = some storage := by
  cases v with
  | array place items => cases items <;> exact ⟨_, rfl⟩
  | object place members => exact ⟨_, rfl⟩
  | _ => cases h

theorem looseEq_of_containers {a b : FieldValue} (ha : a.kind = .container)
    (hb : b.kind = .container) : a.looseEq b = (a.storage? == b.storage?) := by
  obtain ⟨p, hp⟩ := exists_storage ha
  obtain ⟨q, hq⟩ := exists_storage hb
  rw [looseEq, hp, hq, Option.some_beq_some]

theorem strictEq_of_containers {a b : FieldValue} (ha : a.kind = .container)
    (hb : b.kind = .container) : a.strictEq b = (a.storage? == b.storage?) := by
  cases a with
  | array p xs =>
      cases b with
      | array q ys => rfl
      | object q ns => cases xs <;> rfl
      | _ => cases hb
  | object p ms =>
      cases b with
      | array q ys => cases ys <;> rfl
      | object q ns => rfl
      | _ => cases hb
  | _ => cases ha

/-! ## Equality by the rules -/

variable {identical : FieldValue → FieldValue → Bool} {a b : FieldValue}

theorem strictEq_of_kind_eq (h : a.kind = b.kind) : a.strictEq b = a.looseEq b := by
  by_cases ha : a.kind = .container
  · rw [strictEq_of_containers ha (h ▸ ha), looseEq_of_containers ha (h ▸ ha)]
  · rw [looseEq_of_kind_left ha]
    cases a with
    | array _ _ | object _ _ => exact absurd rfl ha
    | _ => cases b <;> first | rfl | cases h

theorem equalStrictly_of_scalar (h : ¬ (a.kind = .container ∧ b.kind = .container)) :
    equalStrictly identical a b = a.strictEq b := by
  cases a <;> cases b <;> first | rfl | exact absurd ⟨rfl, rfl⟩ h

theorem equalStrictly_of_containers (ha : a.kind = .container) (hb : b.kind = .container) :
    equalStrictly identical a b = identical a b := by
  cases a with
  | array _ _ | object _ _ =>
      cases b with
      | array _ _ | object _ _ => rfl
      | _ => cases hb
  | _ => cases ha

theorem equalLoosely_of_scalar (h : ¬ (a.kind = .container ∧ b.kind = .container)) :
    equalLoosely identical a b = a.looseEq b := by
  fun_induction equalLoosely identical a b with
  | case1 a b hkind => rw [equalStrictly_of_scalar h, strictEq_of_kind_eq hkind]
  | case2 a b hne ha hb => simp [looseEq_of_nothing (Or.inl ha), hb]
  | case3 a b hne ha hb => simp [looseEq_of_nothing (Or.inr ha), hb]
  | case4 a b hne ha hb ih =>
      rw [ih (by simp [ha]), looseEq_asNumber_right hne (Or.inr ⟨ha, hb⟩)]
  | case5 a b hne ha hb ih =>
      rw [ih (by simp [hb]), looseEq_asNumber_left hne (Or.inr ⟨hb, ha⟩)]
  | case6 a b hne ha ih =>
      rw [ih (by simp [asNumber, kind]), looseEq_asNumber_left hne (Or.inl ha)]
  | case7 a b hne hb _ ih =>
      rw [ih (by simp [asNumber, kind]), looseEq_asNumber_right hne (Or.inl hb)]
  | case8 a b hne ha hb ih | case9 a b hne ha hb ih =>
      rw [ih (by simp [ha]), looseEq_asScalar_right (by simp [ha])]
  | case10 a b hne ha hb ih | case11 a b hne ha hb ih =>
      rw [ih (by simp [hb]), looseEq_asScalar_left a (by simp [hb])]
  | case12 a b hne =>
      -- no rule applies, so exactly one of the values is nothing
      by_cases ha : a.kind = .undefined ∨ a.kind = .null
      · rw [looseEq_of_nothing ha]
        cases a <;> cases b <;> simp_all [kind]
      · have hb : b.kind = .undefined ∨ b.kind = .null := by
          cases a <;> cases b <;> simp_all [kind]
        rw [looseEq_comm, looseEq_of_nothing hb, decide_eq_false ha]

theorem equalLoosely_of_containers (ha : a.kind = .container) (hb : b.kind = .container) :
    equalLoosely identical a b = identical a b := by
  rw [equalLoosely, if_pos (ha.trans hb.symm), equalStrictly_of_containers ha hb]

/-! ## Order by the rules -/

theorem compareRelational?_swap (a b : FieldValue) :
    b.compareRelational? a = (a.compareRelational? b).map Ordering.swap := by
  unfold compareRelational?
  cases a.toPrimitive with
  | string s =>
      cases b.toPrimitive with
      | string t => exact congrArg some (Text.compareUnits_swap s t)
      | _ => exact Binary64.compare?_swap _ _
  | _ => cases b.toPrimitive <;> exact Binary64.compare?_swap _ _

theorem compareRelational?_asScalar (a b : FieldValue) :
    a.asScalar.compareRelational? b.asScalar = a.compareRelational? b := by
  rw [compareRelational?, compareRelational?, toPrimitive_asScalar, toPrimitive_asScalar]

theorem map_compareRelational?_of_scalars (ha : a.kind ≠ .container)
    (hb : b.kind ≠ .container) :
    (a.compareRelational? b).map (· == .lt) = a.scalarLessThan? b := by
  have hnumbers := Binary64.map_compare? a.numeral b.numeral
  cases a with
  | array _ _ | object _ _ => exact absurd rfl ha
  | string s =>
      cases b with
      | array _ _ | object _ _ => exact absurd rfl hb
      | string t =>
          have hless : (Text.compareUnits s t == .lt) = decide (Text.units s < Text.units t) := by
            rw [Bool.eq_iff_iff, beq_iff_eq, decide_eq_true_eq, Text.compareUnits_eq_lt_iff]
          exact congrArg some hless
      | _ => exact hnumbers
  | _ =>
      cases b with
      | array _ _ | object _ _ => exact absurd rfl hb
      | _ => exact hnumbers

/-- The relational order says whether the one value is less. -/
theorem map_compareRelational? (a b : FieldValue) :
    (a.compareRelational? b).map (· == .lt) = a.lessThan? b := by
  rw [← compareRelational?_asScalar]
  exact map_compareRelational?_of_scalars a.kind_asScalar_ne b.kind_asScalar_ne

/-- The relational order says whether the other value is less. -/
theorem map_compareRelational?_gt (a b : FieldValue) :
    (a.compareRelational? b).map (· == .gt) = b.lessThan? a := by
  rw [← map_compareRelational?, compareRelational?_swap, Option.map_map]
  congr 1
  funext order
  cases order <;> rfl

/-! ## Which containers are the same -/

/-- An array without elements. -/
def isHollow : FieldValue → Bool
  | array _ [] => true
  | _ => false

/-- Both are arrays, or both are objects, and stand at one place. -/
def samePlace : FieldValue → FieldValue → Bool
  | array p _, array q _ | object p _, object q _ => p == q
  | _, _ => false

/-- Both keep what they hold in one storage. -/
def sameStorage (a b : FieldValue) : Bool :=
  a.storage? == b.storage?

theorem strictEq_of_identical
    (h : a.kind = .container → b.kind = .container → identical a b = a.sameStorage b) :
    a.strictEq b = equalStrictly identical a b := by
  by_cases hboth : a.kind = .container ∧ b.kind = .container
  · obtain ⟨ha, hb⟩ := hboth
    rw [strictEq_of_containers ha hb, equalStrictly_of_containers ha hb, h ha hb, sameStorage]
  · exact (equalStrictly_of_scalar hboth).symm

theorem looseEq_of_identical
    (h : a.kind = .container → b.kind = .container → identical a b = a.sameStorage b) :
    a.looseEq b = equalLoosely identical a b := by
  by_cases hboth : a.kind = .container ∧ b.kind = .container
  · obtain ⟨ha, hb⟩ := hboth
    rw [looseEq_of_containers ha hb, equalLoosely_of_containers ha hb, h ha hb, sameStorage]
  · exact (equalLoosely_of_scalar hboth).symm

/-- A storage is a place, but for hollow arrays. -/
theorem sameStorage_eq {documents : Nat → Json} (ha : a.kind = .container)
    (hb : b.kind = .container) (hfa : a.FoundIn documents) (hfb : b.FoundIn documents) :
    a.sameStorage b = (a.samePlace b || (a.isHollow && b.isHollow)) := by
  cases a with
  | array p xs =>
      cases b with
      | array q ys =>
          rw [Bool.eq_iff_iff]
          by_cases hplace : p = q
          · subst hplace
            obtain rfl := hfa.array_inj hfb
            simp [sameStorage, samePlace]
          · cases xs <;> cases ys <;> simp [sameStorage, storage?, samePlace, isHollow, hplace]
      | object q ns => cases xs <;> rfl
      | _ => cases hb
  | object p ms =>
      cases b with
      | array q ys => cases ys <;> rfl
      | object q ns =>
          rw [Bool.eq_iff_iff]
          simp [sameStorage, storage?, samePlace, isHollow]
      | _ => cases hb
  | _ => cases ha

end FieldValue

/-! ## The operators -/

namespace Operator

open FieldValue

variable {identical : FieldValue → FieldValue → Bool} {a b : FieldValue}

/-- An order holds for a relational operator or not by which of the values is less. -/
theorem holdsOf_eq (order : Option Ordering) :
    lt.holdsOf order = (order.map (· == .lt) == some true)
      ∧ ge.holdsOf order = (order.map (· == .lt) == some false)
      ∧ gt.holdsOf order = (order.map (· == .gt) == some true)
      ∧ le.holdsOf order = (order.map (· == .gt) == some false) := by
  cases order with
  | none => decide
  | some o => cases o <;> decide

/-- The operators follow the rules if both take the same containers for identical. -/
theorem apply_eq_verdict_of_identical
    (h : a.kind = .container → b.kind = .container → identical a b = a.sameStorage b)
    (op : Operator) : op.apply a b = op.verdict identical a b := by
  obtain ⟨hlt, hge, hgt, hle⟩ := holdsOf_eq (a.compareRelational? b)
  rw [map_compareRelational?] at hlt hge
  rw [map_compareRelational?_gt] at hgt hle
  cases op with
  | eq => exact looseEq_of_identical h
  | ne => exact congrArg (!·) (looseEq_of_identical h)
  | strictEq => exact strictEq_of_identical h
  | strictNe => exact congrArg (!·) (strictEq_of_identical h)
  | lt => exact hlt
  | ge => exact hge
  | gt => exact hgt
  | le => exact hle

theorem kind_of_isHollow {v : FieldValue} (h : v.isHollow = true) : v.kind = .container := by
  unfold isHollow at h
  split at h
  · rfl
  · cases h

/-- **The operators follow the rules of comparison**, where containers are identical
if they have one storage. Told by their places, as they stand in documents,
containers are compared by the rules unless both of them are arrays without
elements that stand at two places: these are equal all the same. -/
theorem apply_eq_verdict (a b : FieldValue) :
    (∀ op : Operator, op.apply a b = op.verdict sameStorage a b)
    ∧ ∀ documents : Nat → Json, a.FoundIn documents → b.FoundIn documents →
      ((∀ op : Operator, op.apply a b = op.verdict samePlace a b)
        ↔ ¬ (a.isHollow ∧ b.isHollow ∧ ¬ a.samePlace b)) := by
  refine ⟨apply_eq_verdict_of_identical fun _ _ => rfl, ?_⟩
  intro documents hfa hfb
  constructor
  · rintro hrules ⟨ha, hb, hplace⟩
    have hka := kind_of_isHollow ha
    have hkb := kind_of_isHollow hb
    have hstrict : a.strictEq b = a.samePlace b :=
      (hrules .strictEq).trans (equalStrictly_of_containers hka hkb)
    have hstorage := sameStorage_eq hka hkb hfa hfb
    rw [ha, hb, Bool.and_self, Bool.or_true, sameStorage,
      ← strictEq_of_containers hka hkb, hstrict] at hstorage
    exact hplace hstorage
  · intro hexception
    refine apply_eq_verdict_of_identical fun hka hkb => ?_
    rw [sameStorage_eq hka hkb hfa hfb]
    cases hplace : a.samePlace b with
    | true => rfl
    | false =>
        have hhollow : (a.isHollow && b.isHollow) = false := by
          rw [Bool.eq_false_iff, Ne, Bool.and_eq_true]
          rintro ⟨ha, hb⟩
          exact hexception ⟨ha, hb, by simp [hplace]⟩
        rw [hhollow, Bool.or_false]

/-- An array is equal to the truth value that its text is the number of, and not equal to an
array of equal elements elsewhere. -/
theorem apply_eq_verdict_nested :
    let record : Json := .object [("kept", .array [.array [.string "1"]]),
      ("copied", .array [.string "1"])]
    let documents : Nat → Json := fun _ => record
    let kept : FieldValue := (⟨"kept.0"⟩ : FieldPath).resolve record
    let copied : FieldValue := (⟨"copied"⟩ : FieldPath).resolve record
    let given : FieldValue := (Operand.bool true).toFieldValue
    kept.FoundIn documents ∧ copied.FoundIn documents ∧ given.FoundIn documents
      ∧ ¬ (kept.isHollow ∧ copied.isHollow ∧ ¬ kept.samePlace copied)
      ∧ ¬ (kept.isHollow ∧ given.isHollow ∧ ¬ kept.samePlace given)
      ∧ (∀ op : Operator, op.apply kept copied = op.verdict samePlace kept copied)
      ∧ (∀ op : Operator, op.apply kept given = op.verdict samePlace kept given)
      ∧ eq.verdict samePlace kept copied = false
      ∧ eq.verdict samePlace kept given = true := by
  intro record documents kept copied given
  have hkept : kept.FoundIn documents := FieldPath.foundIn_resolveAt ⟨"kept.0"⟩ rfl
  have hcopied : copied.FoundIn documents := FieldPath.foundIn_resolveAt ⟨"copied"⟩ rfl
  have hgiven : given.FoundIn documents := foundIn_toFieldValue _
  have hfull : ¬ (kept.isHollow ∧ copied.isHollow ∧ ¬ kept.samePlace copied) := by decide
  have hmixed : ¬ (kept.isHollow ∧ given.isHollow ∧ ¬ kept.samePlace given) := by decide
  have hrules := ((apply_eq_verdict kept copied).2 documents hkept hcopied).mpr hfull
  have hcoerced := ((apply_eq_verdict kept given).2 documents hkept hgiven).mpr hmixed
  refine ⟨hkept, hcopied, hgiven, hfull, hmixed, hrules, hcoerced, ?_, ?_⟩
  · rw [← hrules eq]
    decide
  · rw [← hcoerced eq]
    decide +kernel

/-- Two arrays without elements are equal, though they stand at two places. -/
theorem apply_ne_verdict_of_hollow :
    let record : Json := .object [("a", .array []), ("b", .array [])]
    let a : FieldValue := (⟨"a"⟩ : FieldPath).resolve record
    let b : FieldValue := (⟨"b"⟩ : FieldPath).resolve record
    (strictEq.apply a b = true ∧ strictEq.verdict samePlace a b = false)
      ∧ eq.apply a b = true ∧ eq.verdict samePlace a b = false := by
  intro record a b
  have hloose : eq.verdict samePlace a b = false := equalLoosely_of_containers rfl rfl
  exact ⟨⟨by decide, by decide⟩, by decide, hloose⟩

end Operator

end RecordQuery
