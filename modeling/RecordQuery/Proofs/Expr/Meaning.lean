import RecordQuery.Predicate
import RecordQuery.Proofs.Expr.NormalForm

/-!
# The meaning of vacuous groups

A group without members is no condition: it is neither true nor false,
and neither is its negation. `Expr.value` is that reading, an optional
truth value, which a group forms from the values that are present among
its members. `Expr.eval` has no such third answer and says yes of an
empty group, so it disagrees with `value` below a negation or a
disjunction (`any [all [], literal false]`).

Normalization brings the two together: what remains of an expression
after reduction evaluates to its value, and nothing remains exactly when
there is no value (`value_eq_map_reduce?`). Predicates are normal, so
they say what the optional reading says.
-/

namespace RecordQuery

namespace Connective

/-! ## Joining truth values -/

/-- What a connective makes of truth values. -/
def join : Connective → List Bool → Bool
  | all, values => values.all id
  | any, values => values.any id

/-- What a connective makes of truth values, if there are any. -/
def join? (k : Connective) : List Bool → Option Bool
  | [] => none
  | value :: rest => some (k.join (value :: rest))

theorem join?_of_ne_nil {k : Connective} {values : List Bool} (h : values ≠ []) :
    k.join? values = some (k.join values) := by
  cases values with
  | nil => exact absurd rfl h
  | cons value rest => rfl

theorem join_singleton (k : Connective) (value : Bool) : k.join [value] = value := by
  cases k <;> simp [join]

theorem join_append_congr {k : Connective} {xs xs' ys ys' : List Bool}
    (hxs : k.join xs = k.join xs') (hys : k.join ys = k.join ys') :
    k.join (xs ++ ys) = k.join (xs' ++ ys') := by
  cases k with
  | all =>
      simp only [join, List.all_append] at *
      rw [hxs, hys]
  | any =>
      simp only [join, List.any_append] at *
      rw [hxs, hys]

/-- Two lists that join alike: both are empty, or neither is and they have
the same truth value. -/
theorem join?_eq_iff {k : Connective} {xs ys : List Bool} :
    k.join? xs = k.join? ys ↔ (xs = [] ↔ ys = []) ∧ k.join xs = k.join ys := by
  cases xs with
  | nil => cases ys <;> simp [join?]
  | cons x xs => cases ys <;> simp [join?]

theorem join?_append_congr {k : Connective} {xs xs' ys ys' : List Bool}
    (hxs : k.join? xs = k.join? xs') (hys : k.join? ys = k.join? ys') :
    k.join? (xs ++ ys) = k.join? (xs' ++ ys') := by
  rw [join?_eq_iff] at *
  refine ⟨?_, join_append_congr hxs.2 hys.2⟩
  rw [List.append_eq_nil_iff, List.append_eq_nil_iff, hxs.1, hys.1]

end Connective

namespace Expr

/-! ## The optional reading -/

mutual

/-- What an expression says of a record, unless it is no condition. -/
def value (record : Json) : Expr → Option Bool
  | literal b => some b
  | clause c => some (c.matchesRecord record)
  | not operand => (value record operand).map (!·)
  | group k members => k.join? (presentValues record members)

/-- The values of those expressions that have one. -/
def presentValues (record : Json) : List Expr → List Bool
  | [] => []
  | e :: rest => (value record e).toList ++ presentValues record rest

end

theorem presentValues_eq_filterMap (record : Json) (es : List Expr) :
    presentValues record es = es.filterMap (value record) := by
  induction es with
  | nil => rfl
  | cons e rest ih =>
      rw [presentValues, ih, List.filterMap_cons]
      cases e.value record <;> rfl

/-- A group has the value that the connective makes of those of its members. -/
theorem value_group (record : Json) (k : Connective) (members : List Expr) :
    (group k members).value record
      = k.join? ((members.map (value record)).filterMap id) := by
  rw [value, presentValues_eq_filterMap, List.filterMap_map, Function.id_comp]

theorem evalAll_eq (record : Json) (es : List Expr) :
    evalAll record es = es.all (eval record) := by
  induction es with
  | nil => rfl
  | cons e rest ih => rw [evalAll, ih, List.all_cons]

theorem evalAny_eq (record : Json) (es : List Expr) :
    evalAny record es = es.any (eval record) := by
  induction es with
  | nil => rfl
  | cons e rest ih => rw [evalAny, ih, List.any_cons]

/-- Only on an empty group do evaluation and the connective disagree. -/
theorem eval_group (record : Json) (k : Connective) {members : List Expr}
    (h : members ≠ []) :
    (group k members).eval record = k.join (members.map (eval record)) := by
  cases k with
  | all => rw [eval, evalAll_eq, Connective.join, List.all_map, Function.id_comp]
  | any =>
      rw [eval, evalAny_eq, Connective.join, List.any_map, Function.id_comp,
        List.isEmpty_eq_false_iff.mpr h, Bool.false_or]

/-! ## Reduction keeps the value -/

/-- A normal member weighs the same whether it stands in the group or gives
its own members to it. -/
theorem join?_map_membersFor (record : Json) (k : Connective) {e : Expr}
    (h : e.IsNormal) :
    k.join? ((membersFor k e).map (eval record)) = some (e.eval record) := by
  rcases membersFor_cases k e with ⟨members, rfl, hgives⟩ | ⟨-, hgives⟩
  · have hlen : 2 ≤ members.length := h.1
    have hne : members ≠ [] := List.ne_nil_of_length_pos (by omega)
    rw [hgives, eval_group record k hne]
    exact Connective.join?_of_ne_nil (by simpa using hne)
  · rw [hgives, List.map_singleton]
    exact congrArg some (Connective.join_singleton k _)

theorem map_eval_ofMembers? (record : Json) (k : Connective) (members : List Expr) :
    (ofMembers? k members).map (eval record) = k.join? (members.map (eval record)) := by
  match members with
  | [] => rfl
  | [e] => exact congrArg some (Connective.join_singleton k _).symm
  | e :: e' :: rest =>
      exact congrArg some (eval_group record k (List.cons_ne_nil e (e' :: rest)))

mutual

/-- The value of an expression is what its reduction evaluates to. -/
theorem value_eq_map_reduce? (record : Json) :
    ∀ e : Expr, e.value record = e.reduce?.map (eval record)
  | literal _ => rfl
  | clause _ => rfl
  | not operand => by
      rw [value, reduce?, value_eq_map_reduce? record operand, Option.map_map, Option.map_map]
      rfl
  | group k members => by
      rw [value, reduce?, map_eval_ofMembers?, join?_presentValues record k members]

/-- Taking members apart or dropping them changes the list of values, but not
what the connective makes of it. -/
theorem join?_presentValues (record : Json) (k : Connective) :
    ∀ members : List Expr, k.join? (presentValues record members)
      = k.join? ((reduceMembers k members).map (eval record))
  | [] => rfl
  | e :: rest => by
      rw [presentValues, reduceMembers_cons, List.map_append]
      refine Connective.join?_append_congr ?_ (join?_presentValues record k rest)
      rw [value_eq_map_reduce? record e]
      cases he : e.reduce? with
      | none => rw [remains_of_none he, Option.map_none, Option.toList_none, List.map_nil]
      | some kept =>
          rw [remains_of_some he, join?_map_membersFor record k (isNormal_of_reduce? he)]
          exact congrArg some (Connective.join_singleton k _)

end

/-- A normal form says what the expression says, and yes if that is nothing. -/
theorem eval_normalize (record : Json) (e : Expr) :
    e.normalize.eval record = (e.value record).getD true := by
  rw [normalize, value_eq_map_reduce?]
  cases e.reduce? <;> rfl

/-! ## Expressions without empty groups -/

mutual

/-- No group in the expression is empty. -/
def NoEmptyGroup : Expr → Prop
  | literal _ | clause _ => True
  | not operand => operand.NoEmptyGroup
  | group _ members => members ≠ [] ∧ NoEmptyGroupIn members

def NoEmptyGroupIn : List Expr → Prop
  | [] => True
  | e :: rest => e.NoEmptyGroup ∧ NoEmptyGroupIn rest

end

mutual

theorem NoEmptyGroup.value_eq (record : Json) :
    ∀ {e : Expr}, e.NoEmptyGroup → e.value record = some (e.eval record)
  | literal _, _ => rfl
  | clause _, _ => rfl
  | not operand, h => by
      have hoperand : operand.NoEmptyGroup := h
      rw [value, hoperand.value_eq record, Option.map_some, eval]
  | group k members, ⟨hne, hmembers⟩ => by
      rw [value, hmembers.presentValues_eq record, eval_group record k hne]
      exact Connective.join?_of_ne_nil (by simpa using hne)

theorem NoEmptyGroupIn.presentValues_eq (record : Json) :
    ∀ {es : List Expr}, NoEmptyGroupIn es → presentValues record es = es.map (eval record)
  | [], _ => rfl
  | e :: rest, ⟨he, hrest⟩ => by
      rw [presentValues, he.value_eq record, hrest.presentValues_eq record]
      rfl

end

end Expr

/-! ## Predicates -/

theorem Predicate.expression_of_ofExpr {e : Expr} {options : Options} {p : Predicate}
    (h : Predicate.ofExpr e options = .ok p) : p.expression = e.normalize := by
  unfold Predicate.ofExpr at h
  split at h
  · cases h
  · cases h
    rfl

theorem Predicate.test_of_ofExpr {e : Expr} {options : Options} {p : Predicate}
    (h : Predicate.ofExpr e options = .ok p) (record : Json) :
    p.test record = (e.value record).getD true := by
  rw [Predicate.test, Predicate.expression_of_ofExpr h, Expr.eval_normalize]

/-- A predicate says of a record what the optional reading says, and yes where
that says nothing. Consequently normalization keeps what an expression
without empty groups says. -/
theorem Predicate.test_eq_value_getD :
    (∀ (e : Expr) (options : Options) (p : Predicate) (record : Json),
      Predicate.ofExpr e options = .ok p → p.test record = (e.value record).getD true)
    ∧ ∀ e : Expr, e.NoEmptyGroup →
      ∀ record : Json, e.normalize.eval record = e.eval record := by
  constructor
  · intro e options p record h
    exact Predicate.test_of_ofExpr h record
  · intro e h record
    rw [Expr.eval_normalize, h.value_eq record, Option.getD_some]

/-- The negation of an empty group, which evaluation alone takes for false, leaves
the clause beside it to decide. -/
theorem Predicate.test_beside_vacuous_negation :
    let e : Expr := .all [.not (.any []), .clause (.truthy ⟨"done"⟩)]
    let grouped : Expr := .any [.all [.clause (.truthy ⟨"done"⟩)], .not (.any [.literal true])]
    let record : Json := .object [("done", .bool true)]
    Predicate.ofExpr e {} = .ok ⟨.clause (.truthy ⟨"done"⟩)⟩
      ∧ (⟨.clause (.truthy ⟨"done"⟩)⟩ : Predicate).test record = (e.value record).getD true
      ∧ e.value record = some true ∧ e.eval record = false
      ∧ grouped.NoEmptyGroup ∧ grouped.normalize.eval record = grouped.eval record := by
  intro e grouped record
  have hp : Predicate.ofExpr e {} = .ok ⟨.clause (.truthy ⟨"done"⟩)⟩ := rfl
  have hgrouped : grouped.NoEmptyGroup := by
    simp [grouped, Expr.NoEmptyGroup, Expr.NoEmptyGroupIn]
  exact ⟨hp, Predicate.test_eq_value_getD.1 e {} _ record hp, rfl, rfl,
    hgrouped, Predicate.test_eq_value_getD.2 grouped hgrouped record⟩

end RecordQuery
