import RecordQuery.Json.Members
import RecordQuery.Number

/-!
# Field values

The value that a path finds in a record: a JSON value, or `undefined` if
there is nothing. An array or object comes with the place it was found
at, because two containers are not compared by what they hold but by
where they hold it.
-/

namespace RecordQuery

/-- One step from a container to something in it. -/
inductive PlaceStep where
  | member (name : String)
  | element (index : Nat)
  deriving DecidableEq

/-- Where a value stands: which document it is part of, and the steps to it from the root of
that document, the last one first. -/
structure Place where
  document : Nat
  steps : List PlaceStep
  deriving DecidableEq

namespace Place

def root (document : Nat) : Place := ⟨document, []⟩

def member (place : Place) (name : String) : Place :=
  { place with steps := .member name :: place.steps }

def element (place : Place) (index : Nat) : Place :=
  { place with steps := .element index :: place.steps }

end Place

inductive FieldValue where
  | undefined
  | null
  | bool (b : Bool)
  | number (n : Number)
  | string (s : String)
  | array (place : Place) (items : List Json)
  | object (place : Place) (members : Members)
  deriving DecidableEq

namespace FieldValue

/-- The value of a document, or of the part of one that stands at a place. -/
def ofJson (place : Place) : Json → FieldValue
  | .null => null
  | .bool b => bool b
  | .number n => number (.ofJson n)
  | .string s => string s
  | .array items => array place items
  | .object members => object place members

/-- The value as a document; `undefined` is none. -/
def toJson? : FieldValue → Option Json
  | undefined => none
  | null => some .null
  | bool b => some (.bool b)
  | number n => some n.toJson
  | string s => some (.string s)
  | array _ items => some (.array items)
  | object _ members => some (.object members)

/-- Nothing, `false`, zero, `nan` and the empty text do not count as true; all else does, also
an empty container. -/
def isTruthy : FieldValue → Bool
  | undefined | null => false
  | bool b => b
  | number n => !n.toBinary64.isZero && !n.toBinary64.isNaN
  | string s => !s.isEmpty
  | array _ _ | object _ _ => true

end FieldValue

end RecordQuery
