import RecordQuery.Proofs.Query.Reading
import RecordQuery.Proofs.Query.Runs

/-!
# The first error of a program

What is wrong with a program, read off the program itself: the failures
of all checks, in the order of the declarations, those of a group where it
is declared (`Step.allFaults`). The query that the program builds has the
first of them for its error (`error_run`). Apart from that error it is the
query of the program without what fails (`run_allWithoutFaults`), since
what fails adds nothing; and whatever is declared on top of an error,
every run fails with it (`failsWith_run_of_error`).
-/

namespace RecordQuery

/-! ## The failures of a program -/

/-- The error of a computation, if it fails. -/
def failure? {α : Type} : Except QueryError α → Option QueryError
  | .ok _ => none
  | .error e => some e

/-- The failures of the checks of a test, in the order of the checks. -/
def Test.faults (options : Options) : Test → List QueryError
  | truthy path | compare path _ _ | includes path _ | contains path _ | oneOf path _ =>
    (failure? (options.accept path)).toList
  | compareBy path token _ =>
    (failure? (Operator.parse token)).toList ++ (failure? (options.accept path)).toList
  | includesKey path key _ =>
    (failure? (options.accept path)).toList ++ (failure? (options.accept key)).toList

namespace Step

mutual

/-- The failures of a declaration, in their order. -/
def faults (options : Options) : Step → List QueryError
  | keys _ paths => paths.filterMap fun path => failure? (options.accept path)
  | test _ t => t.faults options
  | group _ _ program => allFaults options program
  | reset | reload _ => []

def allFaults (options : Options) : List Step → List QueryError
  | [] => []
  | step :: rest => step.faults options ++ allFaults options rest

end

mutual

/-- What is left of a declaration without what fails in it. A group is left also if nothing in
it is. -/
def withoutFaults (options : Options) : Step → List Step
  | keys role paths =>
    [keys role (paths.filter fun path => (failure? (options.accept path)).isNone)]
  | test link t => if t.faults options = [] then [test link t] else []
  | group link negated program => [group link negated (allWithoutFaults options program)]
  | reset => [reset]
  | reload given => [reload given]

def allWithoutFaults (options : Options) : List Step → List Step
  | [] => []
  | step :: rest => step.withoutFaults options ++ allWithoutFaults options rest

end

end Step

/-- A test fails with the first failure of its checks. -/
theorem Test.failure?_clause (options : Options) (t : Test) :
    failure? (t.clause options) = (t.faults options).head? := by
  cases t with
  | truthy path | compare path _ _ | includes path _ | contains path _ | oneOf path _ =>
      simp only [Test.clause, Test.faults]
      cases options.accept path <;> rfl
  | compareBy path token _ =>
      simp only [Test.clause, Test.faults]
      cases Operator.parse token with
      | error e => rfl
      | ok op => cases options.accept path <;> rfl
  | includesKey path key _ =>
      simp only [Test.clause, Test.faults]
      cases options.accept path with
      | error e => rfl
      | ok field => cases options.accept key <;> rfl

theorem Test.faults_eq_nil_iff {options : Options} {t : Test} :
    t.faults options = [] ↔ ∃ c, t.clause options = .ok c := by
  rw [← List.head?_eq_none_iff, ← Test.failure?_clause]
  cases t.clause options with
  | ok c => exact ⟨fun _ => ⟨c, rfl⟩, fun _ => rfl⟩
  | error e => exact ⟨nofun, nofun⟩

namespace Query

/-! ## The error that is recorded -/

theorem error_addKey (role : KeyRole) (q : Query) (path : String) :
    (q.addKey role path).error = q.error.or (failure? (q.options.accept path)) := by
  unfold addKey
  cases q.options.accept path with
  | ok key => exact (Option.or_none).symm
  | error e => rfl

theorem error_addKeys (role : KeyRole) :
    ∀ (paths : List String) (q : Query), (q.addKeys role paths).error
      = q.error.or (paths.filterMap fun path => failure? (q.options.accept path)).head?
  | [], _ => (Option.or_none).symm
  | path :: rest, q => by
      have hrest := error_addKeys role rest (q.addKey role path)
      rw [options_addKey, error_addKey, Option.or_assoc] at hrest
      rw [List.filterMap_cons]
      refine hrest.trans ?_
      cases failure? (q.options.accept path) <;> rfl

theorem error_addTest (q : Query) (link : Link) (t : Test) :
    (q.addTest link t).error = q.error.or (t.faults q.options).head? := by
  rw [← Test.failure?_clause]
  unfold addTest
  cases t.clause q.options with
  | ok c => exact (Option.or_none).symm
  | error e => rfl

theorem error_addGroup (q : Query) (link : Link) (negated : Bool) (inner : Query) :
    (q.addGroup link negated inner).error = q.error.or inner.error := by
  rw [addGroup_eq]
  split <;> rfl

mutual

theorem error_apply {q : Query} : ∀ {step : Step}, step.declares = true →
    (q.apply step).error = q.error.or (step.faults q.options).head?
  | .keys role paths, _ => error_addKeys role paths q
  | .test link t, _ => error_addTest q link t
  | .group link negated program, hprogram => by
      have hinner : (run (.empty q.options) program).error
          = (Step.allFaults q.options program).head? := error_run hprogram
      rw [Query.apply, error_addGroup, hinner, Step.faults]

/-- An error that is there already stays; otherwise the first failure becomes the error. -/
theorem error_run {q : Query} : ∀ {program : List Step}, Step.allDeclare program = true →
    (q.run program).error = q.error.or (Step.allFaults q.options program).head?
  | [], _ => (Option.or_none).symm
  | step :: rest, hprogram => by
      rw [Step.allDeclare, Bool.and_eq_true] at hprogram
      obtain ⟨hstep, hrest⟩ := hprogram
      rw [Query.run, error_run hrest, options_apply hstep, error_apply hstep, Step.allFaults,
        List.head?_append, Option.or_assoc]

end

/-! ## The query apart from its error -/

/-- The query as it is apart from its error. -/
def cleared (q : Query) : Query :=
  { q with error := none }

theorem cleared_addTest_of_faults {q : Query} {t : Test} (h : t.faults q.options ≠ [])
    (link : Link) : (q.addTest link t).cleared = q.cleared := by
  rw [Ne, Test.faults_eq_nil_iff] at h
  unfold addTest
  cases hclause : t.clause q.options with
  | ok c => exact absurd ⟨c, hclause⟩ h
  | error e => rfl

/-- A test that does not fail reads nothing of the error. -/
theorem addTest_cleared {q : Query} {t : Test} (h : t.faults q.options = []) (link : Link) :
    q.cleared.addTest link t = (q.addTest link t).cleared := by
  obtain ⟨c, hclause⟩ := Test.faults_eq_nil_iff.mp h
  have hcleared : t.clause q.cleared.options = .ok c := hclause
  unfold addTest
  rw [hcleared, hclause]
  rfl

theorem cleared_addKey_of_failure {q : Query} {path : String}
    (h : failure? (q.options.accept path) ≠ none) (role : KeyRole) :
    (q.addKey role path).cleared = q.cleared := by
  unfold addKey
  cases haccept : q.options.accept path with
  | ok key => rw [haccept] at h; exact absurd rfl h
  | error e => rfl

theorem addKey_cleared {q : Query} {path : String}
    (h : failure? (q.options.accept path) = none) (role : KeyRole) :
    q.cleared.addKey role path = (q.addKey role path).cleared := by
  cases haccept : q.options.accept path with
  | ok key =>
      have hcleared : q.cleared.options.accept path = .ok key := haccept
      unfold addKey
      rw [hcleared, haccept]
      rfl
  | error e => rw [haccept] at h; cases h

theorem addKeys_filter_accepted (role : KeyRole) :
    ∀ (paths : List String) (q : Query),
      q.cleared.addKeys role (paths.filter fun path => (failure? (q.options.accept path)).isNone)
        = (q.addKeys role paths).cleared
  | [], _ => rfl
  | path :: rest, q => by
      have hrest := addKeys_filter_accepted role rest (q.addKey role path)
      rw [options_addKey] at hrest
      rw [List.filter_cons]
      cases hfailure : failure? (q.options.accept path) with
      | none =>
          rw [← addKey_cleared hfailure] at hrest
          exact hrest
      | some e =>
          have hsome : failure? (q.options.accept path) ≠ none := by
            rw [hfailure]
            exact Option.some_ne_none e
          rw [cleared_addKey_of_failure hsome] at hrest
          exact hrest

/-- Nothing of a group but its error depends on the errors. -/
theorem addGroup_cleared (q : Query) (link : Link) (negated : Bool) (inner : Query) :
    q.cleared.addGroup link negated inner.cleared = (q.addGroup link negated inner).cleared := by
  rw [addGroup_eq, addGroup_eq]
  have hempty : inner.cleared.isEmpty = inner.isEmpty := rfl
  rw [hempty]
  split <;> rfl

theorem run_append (q : Query) (first second : List Step) :
    q.run (first ++ second) = (q.run first).run second := by
  induction first generalizing q with
  | nil => rfl
  | cons step rest ih => exact ih (q.apply step)

mutual

theorem run_withoutFaults {q : Query} : ∀ {step : Step}, step.declares = true →
    q.cleared.run (step.withoutFaults q.options) = (q.apply step).cleared
  | .keys role paths, _ => addKeys_filter_accepted role paths q
  | .test link t, _ => by
      rw [Step.withoutFaults, Query.apply]
      split
      · rename_i hfaults
        exact addTest_cleared hfaults link
      · rename_i hfaults
        exact (cleared_addTest_of_faults hfaults link).symm
  | .group link negated program, hprogram => by
      have hinner : run (.empty q.options) (Step.allWithoutFaults q.options program)
          = (run (.empty q.options) program).cleared :=
        run_allWithoutFaults (q := .empty q.options) hprogram
      have happly : q.cleared.run (Step.withoutFaults q.options (.group link negated program))
          = q.cleared.addGroup link negated
              (run (.empty q.options) (Step.allWithoutFaults q.options program)) := rfl
      rw [happly, hinner]
      exact addGroup_cleared q link negated _

/-- Apart from the error, what fails might as well not be there. -/
theorem run_allWithoutFaults {q : Query} : ∀ {program : List Step},
    Step.allDeclare program = true →
    q.cleared.run (Step.allWithoutFaults q.options program) = (q.run program).cleared
  | [], _ => rfl
  | step :: rest, hprogram => by
      rw [Step.allDeclare, Bool.and_eq_true] at hprogram
      obtain ⟨hstep, hrest⟩ := hprogram
      have htail := run_allWithoutFaults (q := q.apply step) hrest
      rw [options_apply hstep] at htail
      rw [Step.allWithoutFaults, run_append, run_withoutFaults hstep, htail, Query.run]

end

/-! ## The error stays -/

/-- No declaration takes the error back, and every run of the query fails with it. -/
theorem failsWith_run_of_error {q : Query} {e : QueryError} (h : q.error = some e)
    {later : List Step} (hlater : Step.allDeclare later = true) : (q.run later).FailsWith e := by
  apply failsWith_of_predicate
  rw [predicate, error_run hlater, h]
  rfl

/-- **The first error wins and stays.** The error of a program is the first of its
failures, at whatever depth, or none if nothing fails. A test that fails and
a key that fails change nothing but the error, so the query is, but for the
error, the one of the program without what fails. Once there is an error,
every run fails with it, whatever is declared behind it. -/
theorem run_first_error (options : Options) {program : List Step}
    (hprogram : Step.allDeclare program = true) :
    (run (.empty options) program).error = (Step.allFaults options program).head?
    ∧ (∀ (q : Query) (link : Link) (t : Test), t.faults q.options ≠ [] →
        (q.addTest link t).cleared = q.cleared)
    ∧ (∀ (q : Query) (role : KeyRole) (path : String),
        failure? (q.options.accept path) ≠ none → (q.addKey role path).cleared = q.cleared)
    ∧ run (.empty options) (Step.allWithoutFaults options program)
        = (run (.empty options) program).cleared
    ∧ ∀ (q : Query) (e : QueryError), q.error = some e →
        ∀ later : List Step, Step.allDeclare later = true → (q.run later).FailsWith e :=
  ⟨error_run hprogram,
    fun _ link _ hfaults => cleared_addTest_of_faults hfaults link,
    fun _ role _ hfailure => cleared_addKey_of_failure hfailure role,
    run_allWithoutFaults (q := .empty options) hprogram,
    fun _ _ herror _ hlater => failsWith_run_of_error herror hlater⟩

/-- The operator that fails inside the negated group comes before the failing keys behind it and
the failing test behind the group. -/
theorem run_first_error_in_group :
    let program : List Step := [
      .test .and (.truthy "done"),
      .group .or true [
        .test .or (.compareBy "a..b" "=>" .null),
        .keys .sort ["due", "", "b."]],
      .test .or (.includesKey "x." "" .null),
      .test .and (.truthy "late")]
    let q : Query := run (.empty {}) program
    Step.allDeclare program = true
      ∧ Step.allFaults {} program = [
        .unknownOperator "=>", .invalidPath "a..b" .emptySegment,
        .invalidPath "" .emptyPath, .invalidPath "b." .emptySegment,
        .invalidPath "x." .emptySegment, .invalidPath "" .emptyPath]
      ∧ q.error = some (.unknownOperator "=>")
      ∧ run (.empty {}) [
          .test .and (.truthy "done"), .group .or true [.keys .sort ["due"]],
          .test .and (.truthy "late")] = q.cleared
      ∧ (q.run [.keys .select ["due"]]).FailsWith (.unknownOperator "=>") := by
  intro program q
  have hprogram : Step.allDeclare program = true := rfl
  have hfaults : Step.allFaults {} program = [
      .unknownOperator "=>", .invalidPath "a..b" .emptySegment,
      .invalidPath "" .emptyPath, .invalidPath "b." .emptySegment,
      .invalidPath "x." .emptySegment, .invalidPath "" .emptyPath] := rfl
  obtain ⟨hfirst, -, -, hwithout, hlater⟩ := run_first_error {} hprogram
  have herror : q.error = some (.unknownOperator "=>") := by
    rw [hfaults] at hfirst
    exact hfirst
  exact ⟨hprogram, hfaults, herror, hwithout, hlater q _ herror _ rfl⟩

end Query

end RecordQuery
