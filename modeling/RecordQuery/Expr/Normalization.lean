import RecordQuery.Expr.Basic

/-!
# Normal form of expressions

The removal of grouping that says nothing. A group without members
disappears, and so does its negation; a group of one is that one; and a
group within a group of the same connective gives its members to the
outer one. If nothing remains, the expression is true of every record.
-/

namespace RecordQuery.Expr

/-- What a member gives to a group of the connective: its own members if it is such a group. -/
def membersFor (connective : Connective) : Expr → List Expr
  | group k members => if k = connective then members else [group k members]
  | e => [e]

/-- The group of some members, unless there is none or only one. -/
def ofMembers? (connective : Connective) : List Expr → Option Expr
  | [] => none
  | [e] => some e
  | members => some (group connective members)

mutual

/-- The expression without idle grouping, if anything of it remains. -/
def reduce? : Expr → Option Expr
  | literal value => some (literal value)
  | clause c => some (clause c)
  | not operand => operand.reduce?.map not
  | group connective members => ofMembers? connective (reduceMembers connective members)

/-- What remains of the members of a group, in their order. -/
def reduceMembers (connective : Connective) : List Expr → List Expr
  | [] => []
  | e :: rest =>
    (match e.reduce? with
      | none => []
      | some kept => membersFor connective kept) ++ reduceMembers connective rest

end

/-- The expression without idle grouping. -/
def normalize (e : Expr) : Expr :=
  e.reduce?.getD (literal true)

end RecordQuery.Expr
