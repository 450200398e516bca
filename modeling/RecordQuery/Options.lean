import RecordQuery.FieldPath.Basic
import RecordQuery.Json.Fields

/-!
# Options of a query

What a query and all groups inside it agree on: how deep the condition
may nest, whether a search for a text minds its case, and what a path
has to look like to be accepted.
-/

namespace RecordQuery

structure Options where
  /-- The deepest nesting that a condition may have. -/
  maxDepth : UInt64 := 64
  /-- Searches mind the case. -/
  caseSensitiveContains : Bool := false
  /-- Paths are checked when they are declared. -/
  validatePaths : Bool := true
  /-- Paths that are checked must consist of identifiers and indices. -/
  strictPaths : Bool := false
  deriving DecidableEq

namespace Options

/-- The check of a path, by the options. -/
def check (options : Options) (text : String) : Except QueryError FieldPath :=
  if options.strictPaths then FieldPath.parseStrict text else FieldPath.parse text

/-- The path of a text, checked if the options ask for it. -/
def accept (options : Options) (text : String) : Except QueryError FieldPath :=
  if options.validatePaths then options.check text else .ok ⟨text⟩

/-! ## Stored form -/

def toJson (options : Options) : Json :=
  .object (Members.ofList [
    ("max_depth", .ofWord options.maxDepth),
    ("case_sensitive_contains", .bool options.caseSensitiveContains),
    ("validate_paths", .bool options.validatePaths),
    ("strict_paths", .bool options.strictPaths)])

/-- The options that a document stores. A field that is not there has its default. -/
def ofJson? (json : Json) : Option Options := do
  let defaults : Options := {}
  let [depth, caseSensitive, validate, strict] ← json.fields?
    ["max_depth", "case_sensitive_contains", "validate_paths", "strict_paths"] | none
  return {
    maxDepth := ← Json.optional Json.word? defaults.maxDepth depth
    caseSensitiveContains :=
      ← Json.optional Json.bool? defaults.caseSensitiveContains caseSensitive
    validatePaths := ← Json.optional Json.bool? defaults.validatePaths validate
    strictPaths := ← Json.optional Json.bool? defaults.strictPaths strict }

end Options

end RecordQuery
