import RecordQuery.Clause.Basic
import RecordQuery.Json.Fields

/-!
# Stored clauses

Clauses as documents. A stored clause is an object with a member `kind`
beside its fields, or an array of the kind and the fields in order. Reading
makes a needle lower case if case does not matter, since that is how a
clause holds it.
-/

namespace RecordQuery

namespace FieldPath

def toJson (path : FieldPath) : Json :=
  .string path.text

/-- Any text is a path. -/
def ofJson? (json : Json) : Option FieldPath :=
  json.string?.map FieldPath.mk

end FieldPath

namespace Operator

def toJson (op : Operator) : Json :=
  .string op.token

/-- An operator is stored as its token, or as the only name in an object, with nothing under it. -/
def ofJson? : Json → Option Operator
  | .string token => ofToken? token
  | .object [(token, .null)] | .object [(token, .object [])] => ofToken? token
  | _ => none

end Operator

namespace Clause

/-- The kind that a clause is stored under. -/
def kind : Clause → String
  | truthy _ => "truthy"
  | compare _ _ _ => "compare"
  | oneOf _ _ => "in"
  | includes _ _ => "includes"
  | includesKey _ _ _ => "includes_key"
  | contains _ _ _ => "contains"

/-- The fields of a clause, with the names they are stored under. -/
def storedFields : Clause → List (String × Json)
  | truthy field => [("field", field.toJson)]
  | compare field op value =>
    [("field", field.toJson), ("op", op.toJson), ("value", value.toJson)]
  | oneOf field candidates =>
    [("field", field.toJson), ("candidates", .array (candidates.map .string))]
  | includes field value => [("field", field.toJson), ("value", value.toJson)]
  | includesKey field key value =>
    [("field", field.toJson), ("key", key.toJson), ("value", value.toJson)]
  | contains field needle caseSensitive =>
    [("field", field.toJson), ("needle", .string needle), ("case_sensitive", .bool caseSensitive)]

def toJson (clause : Clause) : Json :=
  .object (Members.ofList (("kind", .string clause.kind) :: clause.storedFields))

/-- The clause of a kind, from the record of its fields. -/
def ofFields? (kind : String) (fields : Json) : Option Clause :=
  match kind with
  | "truthy" => do
    let [field] ← fields.fields? ["field"] | none
    return .truthy (← Json.required FieldPath.ofJson? field)
  | "compare" => do
    let [field, op, value] ← fields.fields? ["field", "op", "value"] | none
    return .compare (← Json.required FieldPath.ofJson? field)
      (← Json.required Operator.ofJson? op) (← Json.required Operand.ofJson? value)
  | "in" => do
    let [field, candidates] ← fields.fields? ["field", "candidates"] | none
    return .oneOf (← Json.required FieldPath.ofJson? field)
      (← Json.required (Json.listOf? Json.string?) candidates)
  | "includes" => do
    let [field, value] ← fields.fields? ["field", "value"] | none
    return .includes (← Json.required FieldPath.ofJson? field)
      (← Json.required Operand.ofJson? value)
  | "includes_key" => do
    let [field, key, value] ← fields.fields? ["field", "key", "value"] | none
    return .includesKey (← Json.required FieldPath.ofJson? field)
      (← Json.required FieldPath.ofJson? key) (← Json.required Operand.ofJson? value)
  | "contains" => do
    let [field, needle, caseSensitive] ←
      fields.fields? ["field", "needle", "case_sensitive"] | none
    return .ofNeedle (← Json.required FieldPath.ofJson? field)
      (← Json.required Json.string? needle) (← Json.optional Json.bool? false caseSensitive)
  | _ => none

def ofJson? : Json → Option Clause
  | .object members => do
    ofFields? (← (← Members.get? "kind" members).string?) (.object members)
  | .array (.string kind :: fields) => ofFields? kind (.array fields)
  | _ => none

end Clause

end RecordQuery
