import RecordQuery.Clause.Basic
import RecordQuery.Text.Occurrence

/-!
# Matching of clauses

What a clause says of a record. A clause that searches the field for
something says no of a field that does not count as true, so nothing is
found in what is absent.
-/

namespace RecordQuery.Clause

/-- Some element of the list, or some part of the text, is the literal. -/
def valueIncludes (value : FieldValue) (literal : Operand) : Bool :=
  match value with
  | .array place items =>
    items.zipIdx.any fun (item, index) =>
      (FieldValue.ofJson (place.element index) item).sameValueZero literal.toFieldValue
  | .string s => Text.contains s literal.text
  | _ => false

/-- Some element of the list has the literal under the key. -/
def valueIncludesKey (value : FieldValue) (key : FieldPath) (literal : Operand) : Bool :=
  match value with
  | .array place items =>
    items.zipIdx.any fun (item, index) =>
      (key.resolveAt (place.element index) item).strictEq literal.toFieldValue
  | _ => false

/-- The text has the needle for a part. -/
def valueContains (value : FieldValue) (needle : String) (caseSensitive : Bool) : Bool :=
  match value with
  | .string s => Text.contains (if caseSensitive then s else Text.lowercase s) needle
  | _ => false

/-- What a clause says of the value of its field. -/
def holdsOf (clause : Clause) (value : FieldValue) : Bool :=
  match clause with
  | truthy _ => value.isTruthy
  | compare _ op literal => op.apply value literal.toFieldValue
  | oneOf _ candidates => value.isTruthy && candidates.contains value.text
  | includes _ literal => value.isTruthy && valueIncludes value literal
  | includesKey _ key literal => value.isTruthy && valueIncludesKey value key literal
  | contains _ needle caseSensitive => value.isTruthy && valueContains value needle caseSensitive

def matchesRecord (clause : Clause) (record : Json) : Bool :=
  clause.holdsOf (clause.field.resolve record)

end RecordQuery.Clause
