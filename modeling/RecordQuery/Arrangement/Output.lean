import RecordQuery.Json.Members

/-!
# Output

The result of a query: a list of records, or named buckets that hold
results in their turn. A result becomes a document in two ways. One turns
the buckets into members when all of them are done; the other writes the
result bucket by bucket, into the object as it stands.
-/

namespace RecordQuery

/-- The result of a query. -/
inductive Output where
  | records (items : List Json)
  | groups (buckets : List (String × Output))

namespace Output

def records? : Output → Option (List Json)
  | records items => some items
  | groups _ => none

def groups? : Output → Option (List (String × Output))
  | records _ => none
  | groups buckets => some buckets

def group? (name : String) (output : Output) : Option Output :=
  output.groups?.bind (List.lookup name)

def size : Output → Nat
  | records items => items.length
  | groups buckets => buckets.length

def isEmpty (output : Output) : Bool :=
  output.size == 0

mutual

/-- The result as a document: an array of records, or an object with a member for each bucket. -/
def toJson : Output → Json
  | records items => .array items
  | groups buckets => .object (Members.ofList (entriesToJson buckets))

def entriesToJson : List (String × Output) → List (String × Json)
  | [] => []
  | (name, output) :: rest => (name, output.toJson) :: entriesToJson rest

end

mutual

/-- The document that writing the result leaves. -/
def serialize : Output → Json
  | records items => .array items
  | groups buckets => .object (serializeEntries buckets [])

/-- The members of an object after buckets have been written into it. -/
def serializeEntries : List (String × Output) → Members → Members
  | [], written => written
  | (name, output) :: rest, written =>
    serializeEntries rest (Members.insert name output.serialize written)

end

end Output

end RecordQuery
