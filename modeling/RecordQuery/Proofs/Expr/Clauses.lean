import RecordQuery.Expr.Evaluation
import RecordQuery.Expr.Rendering

/-!
# The clauses of an expression

An expression reads the paths of its clauses and no others. With another
clause in the place of each of its own (`mapClauses`) it has the same
tree. If the new clauses say of a record what the old ones say of it, or
of another record, so does the whole, and if they are shown alike, the
whole is shown as before.
-/

namespace RecordQuery.Expr

mutual

/-- All clauses of an expression, from left to right. -/
def clauses : Expr → List Clause
  | literal _ => []
  | clause c => [c]
  | not operand => operand.clauses
  | group _ members => clausesOfAll members

def clausesOfAll : List Expr → List Clause
  | [] => []
  | e :: rest => e.clauses ++ clausesOfAll rest

end

/-! ## Paths -/

mutual

/-- The paths of an expression are those of its clauses. -/
theorem paths_eq_flatMap_clauses : ∀ e : Expr, e.paths = e.clauses.flatMap Clause.paths
  | literal _ => rfl
  | clause c => (List.flatMap_singleton Clause.paths c).symm
  | not operand => paths_eq_flatMap_clauses operand
  | group _ members => pathsOfAll_eq_flatMap_clauses members

theorem pathsOfAll_eq_flatMap_clauses :
    ∀ es : List Expr, pathsOfAll es = (clausesOfAll es).flatMap Clause.paths
  | [] => rfl
  | e :: rest => by
      rw [pathsOfAll, clausesOfAll, List.flatMap_append, paths_eq_flatMap_clauses e,
        pathsOfAll_eq_flatMap_clauses rest]

end

theorem mem_paths_iff {e : Expr} {path : FieldPath} :
    path ∈ e.paths ↔ ∃ c ∈ e.clauses, path ∈ c.paths := by
  rw [paths_eq_flatMap_clauses, List.mem_flatMap]

/-! ## Replacement -/

mutual

/-- The expression with each of its clauses replaced. -/
def mapClauses (f : Clause → Clause) : Expr → Expr
  | literal value => literal value
  | clause c => clause (f c)
  | not operand => not (operand.mapClauses f)
  | group connective members => group connective (mapClausesOfAll f members)

def mapClausesOfAll (f : Clause → Clause) : List Expr → List Expr
  | [] => []
  | e :: rest => e.mapClauses f :: mapClausesOfAll f rest

end

variable {f : Clause → Clause}

mutual

/-- Replacing what a replacement leaves as it is changes nothing more. -/
theorem mapClauses_mapClauses :
    ∀ {e : Expr}, (∀ c ∈ e.clauses, f (f c) = f c) →
      (e.mapClauses f).mapClauses f = e.mapClauses f
  | literal _, _ => rfl
  | clause c, h => by rw [mapClauses, mapClauses, h c (List.mem_singleton.mpr rfl)]
  | not operand, h => by
      have hoperand : (operand.mapClauses f).mapClauses f = operand.mapClauses f :=
        mapClauses_mapClauses h
      rw [mapClauses, mapClauses, hoperand]
  | group k members, h => by rw [mapClauses, mapClauses, mapClausesOfAll_mapClausesOfAll h]

theorem mapClausesOfAll_mapClausesOfAll :
    ∀ {es : List Expr}, (∀ c ∈ clausesOfAll es, f (f c) = f c) →
      mapClausesOfAll f (mapClausesOfAll f es) = mapClausesOfAll f es
  | [], _ => rfl
  | e :: rest, h => by
      obtain ⟨he, hrest⟩ := List.forall_mem_append.mp h
      rw [mapClausesOfAll, mapClausesOfAll, mapClauses_mapClauses he,
        mapClausesOfAll_mapClausesOfAll hrest]

end

mutual

theorem mapClauses_id : ∀ e : Expr, e.mapClauses id = e
  | literal _ | clause _ => rfl
  | not operand => by rw [mapClauses, mapClauses_id operand]
  | group _ members => by rw [mapClauses, mapClausesOfAll_id members]

theorem mapClausesOfAll_id : ∀ es : List Expr, mapClausesOfAll id es = es
  | [] => rfl
  | e :: rest => by rw [mapClausesOfAll, mapClauses_id e, mapClausesOfAll_id rest]

end

theorem isEmpty_mapClausesOfAll (es : List Expr) :
    (mapClausesOfAll f es).isEmpty = es.isEmpty := by
  cases es <;> rfl

/-! ## Evaluation -/

variable {record other : Json}

mutual

/-- With clauses that say of one record what its own say of another, an expression says the
same. -/
theorem eval_mapClauses :
    ∀ {e : Expr}, (∀ c ∈ e.clauses, (f c).matchesRecord record = c.matchesRecord other) →
      (e.mapClauses f).eval record = e.eval other
  | literal _, _ => rfl
  | clause c, h => h c (List.mem_singleton.mpr rfl)
  | not operand, h => by
      have hoperand : (operand.mapClauses f).eval record = operand.eval other :=
        eval_mapClauses h
      rw [mapClauses, eval, eval, hoperand]
  | group .all members, h => by
      rw [mapClauses, eval, eval, (evalMembers_mapClauses h).1]
  | group .any members, h => by
      rw [mapClauses, eval, eval, (evalMembers_mapClauses h).2, isEmpty_mapClausesOfAll]

theorem evalMembers_mapClauses :
    ∀ {es : List Expr},
      (∀ c ∈ clausesOfAll es, (f c).matchesRecord record = c.matchesRecord other) →
      evalAll record (mapClausesOfAll f es) = evalAll other es
        ∧ evalAny record (mapClausesOfAll f es) = evalAny other es
  | [], _ => ⟨rfl, rfl⟩
  | e :: rest, h => by
      obtain ⟨he, hrest⟩ := List.forall_mem_append.mp h
      obtain ⟨hall, hany⟩ := evalMembers_mapClauses hrest
      rw [mapClausesOfAll, evalAll, evalAll, evalAny, evalAny, eval_mapClauses he, hall, hany]
      exact ⟨rfl, rfl⟩

end

/-- An expression says the same of two records if its clauses do. -/
theorem eval_congr {e : Expr}
    (h : ∀ c ∈ e.clauses, c.matchesRecord record = c.matchesRecord other) :
    e.eval record = e.eval other := by
  rw [← eval_mapClauses (f := id) h, mapClauses_id]

/-! ## Rendering -/

theorem isLeaf_mapClauses (e : Expr) : (e.mapClauses f).isLeaf = e.isLeaf := by
  cases e <;> rfl

theorem needsParens_mapClauses (k : Connective) (e : Expr) :
    needsParens k (e.mapClauses f) = needsParens k e := by
  cases e <;> rfl

mutual

theorem render_mapClauses :
    ∀ {e : Expr}, (∀ c ∈ e.clauses, (f c).render = c.render) →
      (e.mapClauses f).render = e.render
  | literal _, _ => rfl
  | clause c, h => h c (List.mem_singleton.mpr rfl)
  | not operand, h => by
      have hoperand : (operand.mapClauses f).render = operand.render := render_mapClauses h
      rw [mapClauses, render, render, hoperand, isLeaf_mapClauses]
  | group k members, h => by
      rw [mapClauses, render, render, renderMembers_mapClauses k h, isEmpty_mapClausesOfAll]

theorem renderMembers_mapClauses (k : Connective) :
    ∀ {es : List Expr}, (∀ c ∈ clausesOfAll es, (f c).render = c.render) →
      renderMembers k (mapClausesOfAll f es) = renderMembers k es
  | [], _ => rfl
  | e :: rest, h => by
      obtain ⟨he, hrest⟩ := List.forall_mem_append.mp h
      rw [mapClausesOfAll, renderMembers, renderMembers, needsParens_mapClauses,
        render_mapClauses he, renderMembers_mapClauses k hrest]

end

end RecordQuery.Expr
