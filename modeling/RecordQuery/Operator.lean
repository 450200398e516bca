import RecordQuery.Text.Blank
import RecordQuery.Error
import RecordQuery.FieldValue.Equality
import RecordQuery.FieldValue.Order

/-!
# Comparison operators

The eight operators between a field and an operand, the tokens they are
written as, and what they say of two values.
-/

namespace RecordQuery

/-- A comparison operator. The first two pairs are an equality and its denial, loose and strict. -/
inductive Operator where
  | eq | ne | strictEq | strictNe | gt | ge | lt | le
  deriving DecidableEq

namespace Operator

def all : List Operator :=
  [eq, ne, strictEq, strictNe, gt, ge, lt, le]

def token : Operator → String
  | eq => "=="
  | ne => "!="
  | strictEq => "==="
  | strictNe => "!=="
  | gt => ">"
  | ge => ">="
  | lt => "<"
  | le => "<="

def ofToken? (token : String) : Option Operator :=
  all.find? fun op => op.token == token

/-- The operator that a text names, which may have white space around the token. The error
keeps the text as it was given. -/
def parse (text : String) : Except QueryError Operator :=
  match ofToken? (String.ofList (Text.trim text.toList)) with
  | some op => .ok op
  | none => .error (.unknownOperator text)

/-- What a relational operator says of an order. It denies values that have none, and the
equality operators deny every order. -/
def holdsOf (op : Operator) : Option Ordering → Bool
  | none => false
  | some order =>
    match op with
    | gt => order == .gt
    | ge => order != .lt
    | lt => order == .lt
    | le => order != .gt
    | _ => false

def apply (op : Operator) (a b : FieldValue) : Bool :=
  match op with
  | eq => a.looseEq b
  | ne => !a.looseEq b
  | strictEq => a.strictEq b
  | strictNe => !a.strictEq b
  | _ => op.holdsOf (a.compareRelational? b)

/-- Each token names its operator. -/
theorem ofToken?_token (op : Operator) : ofToken? op.token = some op := by
  cases op <;> decide

end Operator

end RecordQuery
