import RecordQuery.Expr.Basic
import RecordQuery.Clause.Rendering

/-!
# Text of expressions

How an expression is shown. Conjunction binds tighter than disjunction,
so a conjunction stands bare in a disjunction; every other group within a
group is in parentheses, and so is a group or a negation under a
negation.
-/

namespace RecordQuery.Expr

def separator : Connective → String
  | .all => " && "
  | .any => " || "

/-- A literal or a clause, which a negation takes without parentheses. -/
def isLeaf : Expr → Bool
  | literal _ | clause _ => true
  | _ => false

/-- A member of a group that needs parentheses. -/
def needsParens (connective : Connective) : Expr → Bool
  | group k _ => connective == .all || k == .any
  | _ => false

def parenthesized (needed : Bool) (text : String) : String :=
  if needed then "(" ++ text ++ ")" else text

mutual

def render : Expr → String
  | literal true => "true"
  | literal false => "false"
  | clause c => c.render
  | not operand => "!" ++ parenthesized (!operand.isLeaf) operand.render
  | group connective members =>
    if members.isEmpty then "()"
    else (separator connective).intercalate (renderMembers connective members)

def renderMembers (connective : Connective) : List Expr → List String
  | [] => []
  | e :: rest =>
    parenthesized (needsParens connective e) e.render :: renderMembers connective rest

end

end RecordQuery.Expr
