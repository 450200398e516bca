import RecordQuery.Arrangement.Grouping
import RecordQuery.Arrangement.Keys
import RecordQuery.Arrangement.Projection
import RecordQuery.Arrangement.Sorting

/-!
# Arrangement of records

The way from the records that a query keeps to its result: they are cut
down, then sorted, then grouped. Sorting and grouping see the records as
they have been cut down. There is no result if one of them cannot be.
-/

namespace RecordQuery

/-- The result that some keys make of records. -/
def Keys.arrange (keys : Keys) (records : List Json) : Output :=
  groupRecords keys.group (sortRecords keys.sort (selectRecords keys.select records))

/-- The result, if there is room for the arrays of all records. -/
def Keys.arrange? (keys : Keys) (records : List Json) : Option Output :=
  (selectRecords? keys.select records).map fun selected =>
    groupRecords keys.group (sortRecords keys.sort selected)

end RecordQuery
