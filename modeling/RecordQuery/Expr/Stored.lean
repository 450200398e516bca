import RecordQuery.Expr.Basic
import RecordQuery.Clause.Stored

/-!
# Stored expressions

Expressions as documents. A stored expression is an object with one
member, whose name says what kind it is.
-/

namespace RecordQuery.Expr

def groupName : Connective → String
  | .all => "all"
  | .any => "any"

mutual

def toJson : Expr → Json
  | literal value => .object [("literal", .bool value)]
  | clause c => .object [("clause", c.toJson)]
  | not operand => .object [("not", operand.toJson)]
  | group connective members => .object [(groupName connective, .array (toJsonAll members))]

def toJsonAll : List Expr → List Json
  | [] => []
  | e :: rest => e.toJson :: toJsonAll rest

end

mutual

def ofJson? : Json → Option Expr
  | .object [(name, body)] =>
    if name = "literal" then body.bool?.map literal
    else if name = "clause" then (Clause.ofJson? body).map clause
    else if name = "not" then (ofJson? body).map not
    else if name = "all" then (membersOfJson? body).map all
    else if name = "any" then (membersOfJson? body).map any
    else none
  | _ => none

/-- The members of a group that a document stores. -/
def membersOfJson? : Json → Option (List Expr)
  | .array items => ofJsonAll? items
  | _ => none

def ofJsonAll? : List Json → Option (List Expr)
  | [] => some []
  | item :: rest => do return (← ofJson? item) :: (← ofJsonAll? rest)

end

end RecordQuery.Expr
