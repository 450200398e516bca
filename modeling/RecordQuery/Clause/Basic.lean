import RecordQuery.FieldPath.Resolution
import RecordQuery.Operand
import RecordQuery.Operator
import RecordQuery.Text.Lowercase

/-!
# Clauses

A clause is one test of one field of a record.
-/

namespace RecordQuery

/-- A test of a field. -/
inductive Clause where
  /-- The field counts as true. -/
  | truthy (field : FieldPath)
  /-- The field and a literal stand in a relation. -/
  | compare (field : FieldPath) (op : Operator) (value : Operand)
  /-- The text of the field is one of the candidates. -/
  | oneOf (field : FieldPath) (candidates : List String)
  /-- The list in the field has an element, or the text in it has a part, that is the literal. -/
  | includes (field : FieldPath) (value : Operand)
  /-- The list in the field has an element that has the literal under a key. -/
  | includesKey (field key : FieldPath) (value : Operand)
  /-- The text in the field has a part that is the needle. If case does not matter the needle
  is in lower case already. -/
  | contains (field : FieldPath) (needle : String) (caseSensitive : Bool)
  deriving DecidableEq

namespace Clause

/-- The clause for one of several literals, which count by their texts. -/
def ofCandidates (field : FieldPath) (values : List Operand) : Clause :=
  .oneOf field (values.map Operand.text)

/-- The clause for a needle. -/
def ofNeedle (field : FieldPath) (needle : String) (caseSensitive : Bool) : Clause :=
  .contains field (if caseSensitive then needle else Text.lowercase needle) caseSensitive

def field : Clause → FieldPath
  | truthy field | compare field _ _ | oneOf field _ | includes field _
  | includesKey field _ _ | contains field _ _ => field

/-- All paths that a clause reads: the field, and the key of an element. -/
def paths : Clause → List FieldPath
  | includesKey field key _ => [field, key]
  | clause => [clause.field]

/-- The same clause; a literal `nan` is not the same as itself. -/
def same : Clause → Clause → Bool
  | compare f op v, compare g op' w => f == g && op == op' && v.same w
  | includes f v, includes g w => f == g && v.same w
  | includesKey f k v, includesKey g l w => f == g && k == l && v.same w
  | a, b => a == b

end Clause

end RecordQuery
