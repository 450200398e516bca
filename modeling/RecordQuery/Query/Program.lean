import RecordQuery.Query.Spec

/-!
# Programs of declarations

A query as the sequence of declarations that builds it. A group is
declared by a program of its own, which runs on an empty query with the
same options.
-/

namespace RecordQuery

/-- One declaration. -/
inductive Step where
  | keys (role : KeyRole) (paths : List String)
  | test (link : Link) (test : Test)
  | group (link : Link) (negated : Bool) (program : List Step)
  | reset
  | reload (options : Option Options)

namespace Query

mutual

def apply (q : Query) : Step → Query
  | .keys role paths => q.addKeys role paths
  | .test link test => q.addTest link test
  | .group link negated program =>
    q.addGroup link negated (run (.empty q.options) program)
  | .reset => q.reset
  | .reload options => (q.reload (options.getD q.options)).getD q

/-- The query with all declarations of a program. -/
def run (q : Query) : List Step → Query
  | [] => q
  | step :: rest => run (q.apply step) rest

end

end Query

end RecordQuery
