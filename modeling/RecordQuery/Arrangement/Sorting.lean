import RecordQuery.FieldPath.Resolution
import RecordQuery.FieldValue.Order

/-!
# Sorting

Records in ascending order of their keys. The first key decides; each
further one decides between records that all keys before it leave equal,
and records that no key tells apart stay in the order they had.
-/

namespace RecordQuery

/-- The order of two records by some keys. -/
def compareByKeys : List FieldPath → Json → Json → Ordering
  | [], _, _ => .eq
  | key :: rest, a, b =>
    (FieldValue.compareForSort (key.resolve a) (key.resolve b)).then (compareByKeys rest a b)

def sortRecords (keys : List FieldPath) (records : List Json) : List Json :=
  records.mergeSort fun a b => compareByKeys keys a b != .gt

end RecordQuery
