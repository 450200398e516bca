import RecordQuery.Arrangement.Output
import RecordQuery.FieldPath.Resolution
import RecordQuery.FieldValue.Coercion

/-!
# Grouping

Records in buckets, one level of them for each key. A bucket is named by
the text of what the key finds. The records of a level are put into its
buckets one after the other: a name that has not come up yet opens a
bucket at the end, and any other record goes to the end of its bucket,
which an index of the names finds.
-/

namespace RecordQuery

def bucketName (key : FieldPath) (record : Json) : String :=
  (key.resolve record).text

/-- The buckets of one level while records are put into them. -/
structure Buckets where
  /-- The buckets, in the order in which they were opened. -/
  entries : List (String × List Json) := []
  /-- Where in `entries` the bucket of a name stands. -/
  index : List (String × Nat) := []

namespace Buckets

def add (buckets : Buckets) (name : String) (record : Json) : Buckets :=
  match buckets.index.lookup name with
  | some position =>
    { buckets with
      entries := buckets.entries.modify position fun (opened, members) =>
        (opened, members ++ [record]) }
  | none =>
    { entries := buckets.entries ++ [(name, [record])]
      index := (name, buckets.entries.length) :: buckets.index }

end Buckets

/-- The records of one level in its buckets. -/
def distribute (key : FieldPath) (records : List Json) : Buckets :=
  records.foldl (fun buckets record => buckets.add (bucketName key record) record) {}

/-- The records in nested buckets. -/
def groupRecords : List FieldPath → List Json → Output
  | [], records => .records records
  | key :: rest, records =>
    .groups ((distribute key records).entries.map fun (name, members) =>
      (name, groupRecords rest members))

end RecordQuery
