import Mathlib.Data.List.Forall2
import RecordQuery.Proofs.Expr.Clauses
import RecordQuery.Proofs.Expr.Meaning

/-!
# Replacing clauses in a condition

Replacing clauses changes nothing about how an expression is grouped, so it
can be done before or after normalization (`normalize_mapClauses`) and the
depth stays the same. If no clause that says yes of a record is replaced by
one that says no, then a condition without negations that says yes goes on
doing so (`Grows.value_le`).
-/

namespace RecordQuery

namespace Expr

variable {f : Clause → Clause} {record : Json}

theorem mapClausesOfAll_eq_map (es : List Expr) :
    mapClausesOfAll f es = es.map (mapClauses f) := by
  induction es with
  | nil => rfl
  | cons e rest ih => rw [mapClausesOfAll, ih, List.map_cons]

/-! ## Grouping -/

theorem membersFor_mapClauses (k : Connective) (e : Expr) :
    membersFor k (e.mapClauses f) = mapClausesOfAll f (membersFor k e) := by
  cases e with
  | literal _ => rfl
  | clause _ => rfl
  | not _ => rfl
  | group k' members =>
      rw [mapClauses, membersFor, membersFor]
      split <;> rfl

theorem ofMembers?_mapClausesOfAll (k : Connective) (es : List Expr) :
    ofMembers? k (mapClausesOfAll f es) = (ofMembers? k es).map (mapClauses f) := by
  match es with
  | [] => rfl
  | [_] => rfl
  | _ :: _ :: _ => rfl

mutual

theorem reduce?_mapClauses : ∀ e : Expr,
    (e.mapClauses f).reduce? = e.reduce?.map (mapClauses f)
  | literal _ => rfl
  | clause _ => rfl
  | not operand => by
      rw [mapClauses, reduce?, reduce?, reduce?_mapClauses operand, Option.map_map, Option.map_map]
      rfl
  | group k members => by
      rw [mapClauses, reduce?, reduce?, reduceMembers_mapClauses k members,
        ofMembers?_mapClausesOfAll]

theorem reduceMembers_mapClauses (k : Connective) : ∀ es : List Expr,
    reduceMembers k (mapClausesOfAll f es) = mapClausesOfAll f (reduceMembers k es)
  | [] => rfl
  | e :: rest => by
      rw [mapClausesOfAll, reduceMembers_cons, reduceMembers_cons,
        reduceMembers_mapClauses k rest]
      simp only [mapClausesOfAll_eq_map, List.map_append]
      congr 1
      cases he : e.reduce? with
      | none =>
          have hnone := reduce?_mapClauses e
          rw [he] at hnone
          rw [remains_of_none he, remains_of_none hnone, List.map_nil]
      | some kept =>
          have hsome := reduce?_mapClauses e
          rw [he] at hsome
          rw [remains_of_some he, remains_of_some hsome, membersFor_mapClauses,
            mapClausesOfAll_eq_map]

end

theorem normalize_mapClauses (e : Expr) :
    (e.mapClauses f).normalize = e.normalize.mapClauses f := by
  rw [normalize, normalize, reduce?_mapClauses]
  cases e.reduce? <;> rfl

mutual

theorem depth_mapClauses : ∀ e : Expr, (e.mapClauses f).depth = e.depth
  | literal _ => rfl
  | clause _ => rfl
  | not operand => congrArg (1 + ·) (depth_mapClauses operand)
  | group _ members => congrArg (1 + ·) (maxDepth_mapClauses members)

theorem maxDepth_mapClauses : ∀ es : List Expr, maxDepth (mapClausesOfAll f es) = maxDepth es
  | [] => rfl
  | e :: rest => by
      rw [mapClausesOfAll, maxDepth, maxDepth, depth_mapClauses e, maxDepth_mapClauses rest]

end

end Expr

/-! ## Truth values that grow -/

theorem Connective.join_le {k : Connective} {xs ys : List Bool}
    (h : List.Forall₂ (· ≤ ·) xs ys) : k.join xs ≤ k.join ys := by
  have hall : ∀ a b c d : Bool, a ≤ b → c ≤ d → (a && c) ≤ (b && d) := by decide
  have hany : ∀ a b c d : Bool, a ≤ b → c ≤ d → (a || c) ≤ (b || d) := by decide
  induction h with
  | nil => exact Bool.le_refl _
  | cons hfirst _ ih =>
      cases k with
      | all => exact hall _ _ _ _ hfirst ih
      | any => exact hany _ _ _ _ hfirst ih

theorem Connective.join?_le {k : Connective} {xs ys : List Bool}
    (h : List.Forall₂ (· ≤ ·) xs ys) : Option.Rel (· ≤ ·) (k.join? xs) (k.join? ys) := by
  cases h with
  | nil => exact .none
  | cons hfirst hrest => exact .some (join_le (.cons hfirst hrest))

namespace Expr

variable {f : Clause → Clause} {record : Json}

mutual

/-- The expression has no negation, and no clause of it that says yes of the record is replaced by
one that says no. -/
def Grows (f : Clause → Clause) (record : Json) : Expr → Prop
  | literal _ => True
  | clause c => c.matchesRecord record ≤ (f c).matchesRecord record
  | not _ => False
  | group _ members => GrowsIn f record members

def GrowsIn (f : Clause → Clause) (record : Json) : List Expr → Prop
  | [] => True
  | e :: rest => e.Grows f record ∧ GrowsIn f record rest

end

theorem growsIn_iff {es : List Expr} : GrowsIn f record es ↔ ∀ e ∈ es, e.Grows f record := by
  induction es with
  | nil => simp [GrowsIn]
  | cons e rest ih => simp only [GrowsIn, ih, List.forall_mem_cons]

mutual

/-- What says yes of the record goes on doing so. -/
theorem Grows.value_le : ∀ {e : Expr}, e.Grows f record →
    Option.Rel (· ≤ ·) (e.value record) ((e.mapClauses f).value record)
  | literal _, _ => .some (Bool.le_refl _)
  | clause _, h => .some h
  | group _ _, h => Connective.join?_le (GrowsIn.presentValues_le h)

theorem GrowsIn.presentValues_le : ∀ {es : List Expr}, GrowsIn f record es →
    List.Forall₂ (· ≤ ·) (presentValues record es) (presentValues record (mapClausesOfAll f es))
  | [], _ => .nil
  | e :: rest, ⟨he, hrest⟩ => by
      have hvalue := he.value_le
      rw [mapClausesOfAll, presentValues, presentValues]
      generalize e.value record = before at hvalue
      generalize (e.mapClauses f).value record = after at hvalue
      cases hvalue with
      | none => exact hrest.presentValues_le
      | some hle => exact .cons hle hrest.presentValues_le

end

end Expr

end RecordQuery
