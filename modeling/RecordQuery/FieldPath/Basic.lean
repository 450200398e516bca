import RecordQuery.Error

/-!
# Field paths

A path to a field that may be nested, such as `author.name` or `tags.0`:
segments with a dot between them. A path is its text, and the segments
are read off it, so the two cannot disagree. Any text is a path. The
checks for a well-formed one stand beside the type, since they are an
option of the query.
-/

namespace RecordQuery

/-- A path, as it is written. -/
structure FieldPath where
  text : String
  deriving DecidableEq

namespace FieldPath

/-- The parts of a text between its dots; a text without dots is its own only part. -/
def splitDots : List Char → List (List Char)
  | [] => [[]]
  | c :: rest =>
    if c = '.' then [] :: splitDots rest
    else match splitDots rest with
      | [] => [[c]]
      | first :: others => (c :: first) :: others

/-- The segments of a path, from the outermost. -/
def segments (path : FieldPath) : List String :=
  (splitDots path.text.toList).map String.ofList

/-! ## Well-formed paths -/

/-- The path of a text that is not empty and has no empty segment. -/
def parse (text : String) : Except QueryError FieldPath :=
  let path : FieldPath := ⟨text⟩
  if text.isEmpty then .error (.invalidPath text .emptyPath)
  else if path.segments.any String.isEmpty then .error (.invalidPath text .emptySegment)
  else .ok path

/-- A letter of the ASCII alphabet, an underscore or a dollar sign. -/
def startsIdentifier (c : Char) : Bool :=
  c.isAlpha || c == '_' || c == '$'

/-- An ASCII identifier, or a row of ASCII digits. -/
def isIdentifierOrIndex (segment : List Char) : Bool :=
  match segment with
  | [] => false
  | first :: rest =>
    (startsIdentifier first && rest.all fun c => startsIdentifier c || c.isDigit)
      || segment.all Char.isDigit

/-- The path of a text that is well-formed and has only identifiers and indices for segments. -/
def parseStrict (text : String) : Except QueryError FieldPath := do
  let path ← parse text
  if path.segments.all fun segment => isIdentifierOrIndex segment.toList then return path
  else throw (.invalidPath text .notIdentifier)

end FieldPath

end RecordQuery
