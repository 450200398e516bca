import RecordQuery.Expr.Basic

/-!
# Evaluation of expressions

What an expression says of a record. A group without members says yes,
whichever its connective, because it stands for no condition at all.
-/

namespace RecordQuery.Expr

mutual

/-- What an expression says of a record. -/
def eval (record : Json) : Expr → Bool
  | literal value => value
  | clause c => c.matchesRecord record
  | not operand => !eval record operand
  | group .all members => evalAll record members
  | group .any members => members.isEmpty || evalAny record members

def evalAll (record : Json) : List Expr → Bool
  | [] => true
  | e :: rest => eval record e && evalAll record rest

def evalAny (record : Json) : List Expr → Bool
  | [] => false
  | e :: rest => eval record e || evalAny record rest

end

end RecordQuery.Expr
