import RecordQuery.Decimal.Basic

/-!
# Errors of a query

What can be wrong with a query. Each error is its cause; the wording is
in `QueryError.message` alone.
-/

namespace RecordQuery

/-- What a text lacks to be a field path. -/
inductive PathFault where
  | emptyPath
  | emptySegment
  | notIdentifier
  deriving DecidableEq

def PathFault.message : PathFault → String
  | emptyPath => "path is empty"
  | emptySegment => "empty segment"
  | notIdentifier => "segments must be identifiers or array indices"

/-- The cause that keeps a query from running. -/
inductive QueryError where
  | unknownOperator (token : String)
  | invalidPath (path : String) (fault : PathFault)
  | tooDeep (limit : Nat)
  deriving DecidableEq

def QueryError.message : QueryError → String
  | unknownOperator token => "unknown comparison operator '" ++ token ++ "'"
  | invalidPath path fault => "invalid field path '" ++ path ++ "': " ++ fault.message
  | tooDeep limit =>
    "expression nesting exceeds maximum depth of " ++ Decimal.integerText limit

end RecordQuery
