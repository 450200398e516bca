import RecordQuery.Expr.Evaluation
import RecordQuery.Expr.Normalization
import RecordQuery.Options

/-!
# Predicates

An expression in normal form that has been checked, ready to be put to
records.
-/

namespace RecordQuery

/-- An expression that is put to records. -/
structure Predicate where
  expression : Expr

namespace Predicate

/-- The predicate of an expression. It is refused if the normal form nests deeper than the
options allow. -/
def ofExpr (e : Expr) (options : Options) : Except QueryError Predicate :=
  if options.maxDepth.toNat < e.normalize.depth then .error (.tooDeep options.maxDepth.toNat)
  else .ok ⟨e.normalize⟩

def test (p : Predicate) (record : Json) : Bool :=
  p.expression.eval record

/-- The records of which the predicate holds, in their order. A trivial predicate keeps them all
without being asked. -/
def filter (p : Predicate) (records : List Json) : List Json :=
  if p.expression.isTrivial then records else records.filter p.test

end Predicate

end RecordQuery
