import RecordQuery.Clause.Matching

/-!
# Boolean expressions

Clauses joined by conjunction, disjunction and negation. Both kinds of
group are one constructor with its connective, so what holds of the one
kind is said and proved of the other too.
-/

namespace RecordQuery

/-- How the members of a group are joined. -/
inductive Connective where
  | all
  | any
  deriving DecidableEq

/-- A boolean expression over one record. -/
inductive Expr where
  | literal (value : Bool)
  | clause (clause : Clause)
  | not (operand : Expr)
  | group (connective : Connective) (members : List Expr)

namespace Expr

/-- A conjunction. -/
@[match_pattern] abbrev all (members : List Expr) : Expr := group .all members

/-- A disjunction. -/
@[match_pattern] abbrev any (members : List Expr) : Expr := group .any members

/-- The expression that is true of every record and says so. -/
def isTrivial : Expr → Bool
  | literal true => true
  | _ => false

theorem isTrivial_iff {e : Expr} : e.isTrivial = true ↔ e = literal true := by
  constructor
  · intro h
    unfold isTrivial at h
    split at h
    · rfl
    · cases h
  · rintro rfl
    rfl

mutual

/-- How deep an expression nests. A literal or a clause has depth 1. -/
def depth : Expr → Nat
  | literal _ | clause _ => 1
  | not operand => 1 + operand.depth
  | group _ members => 1 + maxDepth members

/-- The depth of the deepest of several expressions, or 0 if there are none. -/
def maxDepth : List Expr → Nat
  | [] => 0
  | e :: rest => max e.depth (maxDepth rest)

end

mutual

/-- All paths that an expression reads, from left to right. -/
def paths : Expr → List FieldPath
  | literal _ => []
  | clause c => c.paths
  | not operand => operand.paths
  | group _ members => pathsOfAll members

def pathsOfAll : List Expr → List FieldPath
  | [] => []
  | e :: rest => e.paths ++ pathsOfAll rest

end

mutual

/-- The same expression; a literal `nan` in a clause is not the same as itself. -/
def same : Expr → Expr → Bool
  | literal a, literal b => a == b
  | clause c, clause d => c.same d
  | not a, not b => a.same b
  | group k as, group l bs => k == l && sameAll as bs
  | _, _ => false

def sameAll : List Expr → List Expr → Bool
  | [], [] => true
  | a :: as, b :: bs => a.same b && sameAll as bs
  | _, _ => false

end

end Expr

end RecordQuery
