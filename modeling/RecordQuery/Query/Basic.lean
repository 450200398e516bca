import RecordQuery.Arrangement.Basic
import RecordQuery.Predicate

/-!
# Queries

A query over records, built up by declarations. Its condition is a
disjunction of branches, each a conjunction of items: a declaration with
`and` adds an item to the last branch, and one with `or` starts a new
branch. A declaration that is wrong adds nothing; the query keeps the
first error and every run of it fails with that.
-/

namespace RecordQuery

/-- How an item joins the condition. -/
inductive Link where
  | and
  | or
  deriving DecidableEq

structure Query where
  options : Options := {}
  branches : List (List Expr) := []
  keys : Keys := {}
  error : Option QueryError := none

/-- A test as it is declared, with paths and operator as texts. -/
inductive Test where
  | truthy (path : String)
  | compare (path : String) (op : Operator) (value : Operand)
  | compareBy (path token : String) (value : Operand)
  | includes (path : String) (value : Operand)
  | includesKey (path key : String) (value : Operand)
  | contains (path needle : String)
  | oneOf (path : String) (values : List Operand)

/-- The clause that a test declares. The first text that is wrong is the error. -/
def Test.clause (options : Options) : Test → Except QueryError Clause
  | truthy path => do
    return .truthy (← options.accept path)
  | compare path op value => do
    return .compare (← options.accept path) op value
  | compareBy path token value => do
    let op ← Operator.parse token
    return .compare (← options.accept path) op value
  | includes path value => do
    return .includes (← options.accept path) value
  | includesKey path key value => do
    let field ← options.accept path
    return .includesKey field (← options.accept key) value
  | contains path needle => do
    return .ofNeedle (← options.accept path) needle options.caseSensitiveContains
  | oneOf path values => do
    return .ofCandidates (← options.accept path) values

namespace Query

def empty (options : Options) : Query := { options }

/-! ## Declarations -/

/-- The query with an error, unless it has one. -/
def recordError (q : Query) (e : QueryError) : Query :=
  { q with error := q.error.or (some e) }

/-- Branches with one more item. The first item starts the first branch, whatever its link. -/
def attach {α : Type} (link : Link) (item : α) : List (List α) → List (List α)
  | [] => [[item]]
  | [last] =>
    match link with
    | .and => [last ++ [item]]
    | .or => [last, [item]]
  | branch :: next :: rest => branch :: attach link item (next :: rest)

def addItem (q : Query) (link : Link) (item : Expr) : Query :=
  { q with branches := attach link item q.branches }

def addTest (q : Query) (link : Link) (test : Test) : Query :=
  match test.clause q.options with
  | .ok c => q.addItem link (.clause c)
  | .error e => q.recordError e

def addKey (role : KeyRole) (q : Query) (path : String) : Query :=
  match q.options.accept path with
  | .ok key => { q with keys := q.keys.add role key }
  | .error e => q.recordError e

def addKeys (q : Query) (role : KeyRole) (paths : List String) : Query :=
  paths.foldl (addKey role) q

/-- The condition as it was declared. -/
def rawExpression (q : Query) : Expr :=
  .any (q.branches.map .all)

/-- Nothing has been added to the condition. -/
def isEmpty (q : Query) : Bool :=
  q.branches.isEmpty

/-- The query with the condition of another one for an item, or the negation of it. The keys and
the error of the other are taken over also if it has no condition, which adds no item. -/
def addGroup (q : Query) (link : Link) (negated : Bool) (inner : Query) : Query :=
  let joined : Query :=
    { q with keys := q.keys.merge inner.keys, error := q.error.or inner.error }
  if inner.isEmpty then joined
  else
    let item := inner.rawExpression
    joined.addItem link (if negated then .not item else item)

/-- The query with everything declared taken back. -/
def reset (q : Query) : Query := empty q.options

/-! ## Runs -/

def expression (q : Query) : Expr :=
  q.rawExpression.normalize

/-- The condition, ready to be put to records. -/
def predicate (q : Query) : Except QueryError Predicate :=
  match q.error with
  | some e => .error e
  | none => Predicate.ofExpr q.expression q.options

def matchesRecord (q : Query) (record : Json) : Except QueryError Bool :=
  return (← q.predicate).test record

def filter (q : Query) (records : List Json) : Except QueryError (List Json) :=
  return (← q.predicate).filter records

def count (q : Query) (records : List Json) : Except QueryError Nat :=
  return records.countP (← q.predicate).test

/-- The records that match, arranged by the keys. Without an error there may still be no result,
where a record has no room for an array that a key asks for. -/
def get (q : Query) (records : List Json) : Except QueryError (Option Output) :=
  return q.keys.arrange? ((← q.predicate).filter records)

end Query

end RecordQuery
