import RecordQuery.FieldPath.Resolution

/-!
# Projection

Cutting a record down to the fields that some keys lead to. The result is
built up from an empty object, one key after the other: each puts the
value it finds at the place it names, and makes the containers on the way
there. An index makes an array, filled up with `null`, and any other
segment an object.

The name of a member may be read as the index of an array that is longer
than any array can be. Where a key asks for such an array (`Json.hasRoom`
says where not), the record cannot be cut down (`project?`).
-/

namespace RecordQuery

/-- The index that a segment made of digits alone denotes. An array is made for it, so it has to
fit 64 bits. -/
def digitIndex? (segment : String) : Option Nat :=
  if segment.toList.all Char.isDigit then Text.readWord? 10 segment.toList else none

namespace Json

/-- The container in which a segment has a place. -/
def containerFor (segment : String) : Json :=
  if (digitIndex? segment).isSome then .array [] else .object []

/-- What stands at a place, made a container if there is a further segment and it is none. -/
def makeWay (rest : List String) (slot : Json) : Json :=
  match rest with
  | [] => slot
  | next :: _ => if slot.isContainer then slot else containerFor next

/-- The number of elements that an array can have. An element takes 32 bytes, and the bytes of an
array are counted by 63 bits. -/
def maxLength : Nat := (2 ^ 63 - 1) / 32

/-- An array filled up with `null` so that it has an element at an index. It is asked for only
where there is room for it (`hasRoom`). -/
def padTo (index : Nat) (items : List Json) : List Json :=
  items ++ List.replicate (index + 1 - items.length) .null

/-- A document with a value put at the place that segments name. A segment that has no place in
the container that is there leaves it as it is. -/
def insertAt (value : Json) : List String → Json → Json
  | [], _ => value
  | segment :: rest, .object members =>
    let slot := makeWay rest ((Members.get? segment members).getD .null)
    .object (Members.insert segment (insertAt value rest slot) members)
  | segment :: rest, .array items =>
    match digitIndex? segment with
    | some index =>
      let slot := makeWay rest (items[index]?.getD .null)
      .array ((padTo index items).set index (insertAt value rest slot))
    | none => .array items
  | _ :: _, other => other

/-- A value can be put at the place that segments name: no array has to be filled up beyond
`maxLength` for it. -/
def hasRoom : List String → Json → Bool
  | [], _ => true
  | segment :: rest, .object members =>
    hasRoom rest (makeWay rest ((Members.get? segment members).getD .null))
  | segment :: rest, .array items =>
    match digitIndex? segment with
    | some index =>
      (index < items.length || index < maxLength)
        && hasRoom rest (makeWay rest (items[index]?.getD .null))
    | none => true
  | _ :: _, _ => true

end Json

/-- A document with the value of one key of a record put in, if the record has one. -/
def pick (record : Json) (picked : Json) (key : FieldPath) : Json :=
  match (key.resolve record).toJson? with
  | some value => Json.insertAt value key.segments picked
  | none => picked

/-- A record cut down to some keys; without keys it is whole. -/
def project (keys : List FieldPath) (record : Json) : Json :=
  if keys.isEmpty then record else keys.foldl (pick record) (.object [])

def selectRecords (keys : List FieldPath) (records : List Json) : List Json :=
  records.map (project keys)

/-- The step of `pick`, if there is room for it. -/
def pick? (record : Json) (picked : Json) (key : FieldPath) : Option Json :=
  if (key.resolve record).toJson?.isNone || Json.hasRoom key.segments picked then
    some (pick record picked key)
  else none

/-- The record cut down to some keys, if there is room for all arrays on the way. -/
def project? (keys : List FieldPath) (record : Json) : Option Json :=
  if keys.isEmpty then some record else keys.foldlM (pick? record) (.object [])

def selectRecords? (keys : List FieldPath) (records : List Json) : Option (List Json) :=
  records.mapM (project? keys)

theorem selectRecords_nil (records : List Json) : selectRecords [] records = records :=
  List.map_id records

end RecordQuery
