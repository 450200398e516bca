import RecordQuery.Json.Members

/-!
# Fields of a stored record

Reading a record with known fields from a document. A record is stored as
an object, in which any further member is ignored, or as an array of its
fields in order, which may leave out fields at its end but has none
beyond the last.
-/

namespace RecordQuery.Json

/-- The fields of a stored record, in the order of the names given; one that is not there is
`none`. -/
def fields? (names : List String) : Json → Option (List (Option Json))
  | .object members => some (names.map fun name => Members.get? name members)
  | .array items =>
    if items.length ≤ names.length then
      some (items.map some ++ List.replicate (names.length - items.length) none)
    else none
  | _ => none

def required {α : Type} (read : Json → Option α) (field : Option Json) : Option α :=
  field.bind read

/-- A field with a default. What is there must be readable. -/
def optional {α : Type} (read : Json → Option α) (default : α) : Option Json → Option α
  | none => some default
  | some json => read json

def bool? : Json → Option Bool
  | .bool b => some b
  | _ => none

def string? : Json → Option String
  | .string s => some s
  | _ => none

/-- An integer that is not negative. -/
def word? : Json → Option UInt64
  | .number (.integer value _) => if 0 ≤ value then some (.ofNat value.toNat) else none
  | _ => none

/-- An array whose elements can all be read. -/
def listOf? {α : Type} (read : Json → Option α) : Json → Option (List α)
  | .array items => items.mapM read
  | _ => none

end RecordQuery.Json
