import RecordQuery.Query.Basic
import RecordQuery.Expr.Stored

/-!
# Specs

A query as data: its condition and its keys, without the options it was
built under. A spec can be stored and made a query again, under options
of its own.
-/

namespace RecordQuery.Query

/-- The condition and the keys of a query. -/
structure Spec where
  filter : Expr := .literal true
  keys : Keys := {}

namespace Spec

/-- All paths of a spec, in the order in which they are checked. -/
def paths (spec : Spec) : List FieldPath :=
  spec.filter.paths ++ spec.keys.all

/-! ## Stored form -/

def pathsToJson (paths : List FieldPath) : Json :=
  .array (paths.map FieldPath.toJson)

def toJson (spec : Spec) : Json :=
  .object (Members.ofList [
    ("filter", spec.filter.toJson),
    ("select", pathsToJson spec.keys.select),
    ("sort", pathsToJson spec.keys.sort),
    ("group", pathsToJson spec.keys.group)])

/-- The spec that a document stores. What is not there selects, sorts and groups nothing, and
keeps every record. -/
def ofJson? (json : Json) : Option Spec := do
  let [filter, select, sort, group] ←
    json.fields? ["filter", "select", "sort", "group"] | none
  let paths := Json.optional (Json.listOf? FieldPath.ofJson?) []
  return {
    filter := ← Json.optional Expr.ofJson? (.literal true) filter
    keys := { select := ← paths select, sort := ← paths sort, group := ← paths group } }

end Spec

/-- The query as data. -/
def toSpec (q : Query) : Spec :=
  ⟨q.expression, q.keys⟩

/-- The first error among paths, if the options ask for a check. -/
def firstPathError (options : Options) : List FieldPath → Option QueryError
  | [] => none
  | path :: rest =>
    match options.accept path.text with
    | .ok _ => firstPathError options rest
    | .error e => some e

/-- The query of a spec. The condition is one item, unless it is trivial. -/
def ofSpec (spec : Spec) (options : Options) : Query :=
  let filter := spec.filter.normalize
  { options
    branches := if filter.isTrivial then [] else [[filter]]
    keys := spec.keys
    error := firstPathError options spec.paths }

/-- The query stored and read again, under the options given. -/
def reload (q : Query) (options : Options) : Option Query :=
  (Spec.ofJson? q.toSpec.toJson).map fun spec => ofSpec spec options

end RecordQuery.Query
