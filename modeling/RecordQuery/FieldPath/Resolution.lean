import RecordQuery.FieldPath.Basic
import RecordQuery.FieldValue.Basic
import RecordQuery.Text.Natural
import RecordQuery.Text.Units

/-!
# Resolution of paths

Following a path into a record. A segment names a member of an object or
an element of an array; a last segment `length` asks for the number of
elements of an array or of UTF-16 units of a text. Resolution never
fails: what cannot be followed leads to `undefined`.
-/

namespace RecordQuery

namespace FieldPath

/-- The index that a segment denotes. Leading zeros and a plus sign do not matter. There is no
largest index, since one beyond the end of an array leads to nothing. -/
def readIndex? (segment : String) : Option Nat :=
  Text.readNatural? 10 segment.toList

/-- A count as a value, if the segment asks for one and is the last. -/
def resolveLength (count : Nat) (segment : String) (rest : List String) : FieldValue :=
  if segment = "length" ∧ rest = [] then .number (.unsigned (.ofNat count)) else .undefined

/-- The value that segments lead to from a document, or from the part of one at a place. -/
def resolveSegments (place : Place) (json : Json) : List String → FieldValue
  | [] => .ofJson place json
  | segment :: rest =>
    match json with
    | .object members =>
      match Members.get? segment members with
      | some value => resolveSegments (place.member segment) value rest
      | none => .undefined
    | .array items =>
      match readIndex? segment with
      | some index =>
        match items[index]? with
        | some item => resolveSegments (place.element index) item rest
        | none => .undefined
      | none => resolveLength items.length segment rest
    | .string s => resolveLength (Text.unitCount s) segment rest
    | _ => .undefined

/-- The value that a path leads to from what stands at a place. -/
def resolveAt (path : FieldPath) (place : Place) (json : Json) : FieldValue :=
  resolveSegments place json path.segments

def resolve (path : FieldPath) (record : Json) : FieldValue :=
  path.resolveAt (.root 0) record

end FieldPath

end RecordQuery
