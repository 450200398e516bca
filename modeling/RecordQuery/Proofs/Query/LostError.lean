import RecordQuery.Proofs.Query.FirstError
import RecordQuery.Proofs.Query.SpecRoundTrip

/-!
# Errors are not stored

A spec has the condition and the keys of a query, but not its error. The
query of that spec fails for reasons of its own: a path that was kept is
refused, or the condition is too deep (`predicate_ofSpec_toSpec`). But
declarations keep no path that is refused (`accepts_of_mem_paths_run`). What
they refuse is seen in the error alone, so a query that fails comes back
from its spec as the query without what failed.
-/

namespace RecordQuery

namespace Step

/-! ## Programs without what fails -/

theorem allReloadOptions_append (first second : List Step) :
    allReloadOptions (first ++ second) = allReloadOptions first ++ allReloadOptions second := by
  induction first with
  | nil => rfl
  | cons step rest ih =>
      rw [List.cons_append, allReloadOptions, allReloadOptions, ih, List.append_assoc]

mutual

theorem reloadOptions_withoutFaults (options : Options) : ∀ {step : Step},
    step.declares = true → allReloadOptions (step.withoutFaults options) = []
  | keys _ _, _ => rfl
  | test link t, _ => by
      rw [withoutFaults]
      split <;> rfl
  | group link negated program, hprogram => by
      have hinner : allReloadOptions (allWithoutFaults options program) = [] :=
        allReloadOptions_withoutFaults options hprogram
      rw [withoutFaults, allReloadOptions, reloadOptions, hinner]
      rfl

/-- Leaving out what fails brings in no stored query. -/
theorem allReloadOptions_withoutFaults (options : Options) : ∀ {program : List Step},
    allDeclare program = true → allReloadOptions (allWithoutFaults options program) = []
  | [], _ => rfl
  | step :: rest, hprogram => by
      rw [allDeclare, Bool.and_eq_true] at hprogram
      obtain ⟨hstep, hrest⟩ := hprogram
      rw [allWithoutFaults, allReloadOptions_append, reloadOptions_withoutFaults options hstep,
        allReloadOptions_withoutFaults options hrest, List.append_nil]

end

end Step

namespace Query

/-! ## Paths that are kept -/

theorem options_run {q : Query} {program : List Step} (h : Step.allDeclare program = true) :
    (q.run program).options = q.options :=
  options_run_of_adds q (Step.adds_of_allDeclare h)

/-- Declarations keep only paths that the options accept, also those of a query that fails:
without what fails it has the same paths and no error, so all of them have been checked. -/
theorem accepts_of_mem_paths_run (options : Options) {program : List Step}
    (hprogram : Step.allDeclare program = true) :
    ∀ path ∈ (run (.empty options) program).paths, options.Accepts path := by
  have hrun : run (.empty options) (Step.allWithoutFaults options program)
      = (run (.empty options) program).cleared :=
    run_allWithoutFaults (q := .empty options) hprogram
  have hempty : Built (· = options) (.empty options) := .empty rfl
  have hbuilt : Built (· = options) (run (.empty options) program).cleared := by
    rw [← hrun]
    refine hempty.run fun other hother => ?_
    rw [Step.allReloadOptions_withoutFaults options hprogram] at hother
    cases hother
  exact hbuilt.checked rfl

/-! ## The query of the spec of a query -/

/-- The query of the spec has the first error among the paths that were kept. Without one it has
the predicate that the query would have but for its error. -/
theorem predicate_ofSpec_toSpec (q : Query) :
    (ofSpec q.toSpec q.options).predicate
      = match firstPathError q.options q.paths with
        | some e => .error e
        | none => q.cleared.predicate := by
  have herror : (ofSpec q.toSpec q.options).error = firstPathError q.options q.paths := by
    rw [← paths_toSpec]
    rfl
  have hcleared : q.cleared.predicate = Predicate.ofExpr q.expression q.options := rfl
  rw [predicate, herror, expression_ofSpec_toSpec, hcleared]
  cases firstPathError q.options q.paths <;> rfl

theorem sameRuns_cleared_of_accepts {q : Query}
    (h : ∀ path ∈ q.paths, q.options.Accepts path) :
    SameRuns (ofSpec q.toSpec q.options) q.cleared := by
  refine sameRuns_of_predicate_eq ?_ rfl
  rw [predicate_ofSpec_toSpec, firstPathError_eq_none.mpr h]

theorem exists_failsWith_iff {q : Query} :
    (∃ e, q.FailsWith e) ↔ ∃ e, q.predicate = .error e :=
  exists_congr fun _ => ⟨FailsWith.predicate, failsWith_of_predicate⟩

/-- But for its error a query fails only if its condition is too deep. -/
theorem exists_predicate_cleared_eq_error_iff {q : Query} :
    (∃ e, q.cleared.predicate = .error e) ↔ q.options.maxDepth.toNat < q.expression.depth := by
  have hcleared : q.cleared.predicate = Predicate.ofExpr q.expression q.options := rfl
  have hnormal : q.expression.normalize = q.expression := Expr.normalize_normalize _
  rw [hcleared, Predicate.ofExpr, hnormal]
  split
  · rename_i hdeep
    exact ⟨fun _ => hdeep, fun _ => ⟨_, rfl⟩⟩
  · rename_i hdeep
    refine ⟨?_, fun h => absurd h hdeep⟩
    rintro ⟨e, h⟩
    cases h

theorem exists_failsWith_ofSpec_toSpec_iff (q : Query) :
    (∃ e, (ofSpec q.toSpec q.options).FailsWith e)
      ↔ (∃ path ∈ q.paths, ¬ q.options.Accepts path)
        ∨ q.options.maxDepth.toNat < q.expression.depth := by
  rw [exists_failsWith_iff, predicate_ofSpec_toSpec]
  cases hfirst : firstPathError q.options q.paths with
  | none =>
      have haccepts := firstPathError_eq_none.mp hfirst
      have hnone : ¬ ∃ path ∈ q.paths, ¬ q.options.Accepts path := by
        rintro ⟨path, hpath, hrefused⟩
        exact hrefused (haccepts path hpath)
      rw [or_iff_right hnone]
      exact exists_predicate_cleared_eq_error_iff
  | some e =>
      have hrefused : ∃ path ∈ q.paths, ¬ q.options.Accepts path := by
        by_contra hall
        simp only [not_exists, not_and, not_not] at hall
        rw [firstPathError_eq_none.mpr hall] at hfirst
        cases hfirst
      exact ⟨fun _ => Or.inl hrefused, fun _ => ⟨e, rfl⟩⟩

/-- **The error of a query is not in its spec.** A query, with an error or without,
comes back from its spec as one that fails exactly if it kept a path that is
refused, or its condition is too deep; unless it kept such a path, it comes back as
what it is but for its error. A program of declarations keeps no path that is
refused, so it comes back as the program without what fails: every run of it
succeeds that succeeds without the tests and keys that were refused. -/
theorem ofSpec_toSpec_fails_iff (q : Query) :
    ((∃ e, (ofSpec q.toSpec q.options).FailsWith e)
      ↔ (∃ path ∈ q.paths, ¬ q.options.Accepts path)
        ∨ q.options.maxDepth.toNat < q.expression.depth)
    ∧ ((∀ path ∈ q.paths, q.options.Accepts path) →
      SameRuns (ofSpec q.toSpec q.options) q.cleared)
    ∧ ∀ (options : Options) (program : List Step), Step.allDeclare program = true →
      q = run (.empty options) program →
      (∀ path ∈ q.paths, q.options.Accepts path)
      ∧ SameRuns (ofSpec q.toSpec q.options)
          (run (.empty options) (Step.allWithoutFaults options program)) := by
  refine ⟨exists_failsWith_ofSpec_toSpec_iff q, sameRuns_cleared_of_accepts, ?_⟩
  rintro options program hprogram rfl
  have hoptions : (run (.empty options) program).options = options :=
    options_run (q := .empty options) hprogram
  have haccepts : ∀ path ∈ (run (.empty options) program).paths,
      (run (.empty options) program).options.Accepts path := by
    rw [hoptions]
    exact accepts_of_mem_paths_run options hprogram
  have hrun : run (.empty options) (Step.allWithoutFaults options program)
      = (run (.empty options) program).cleared :=
    run_allWithoutFaults (q := .empty options) hprogram
  rw [hrun]
  exact ⟨haccepts, sameRuns_cleared_of_accepts haccepts⟩

/-- A query that lost a test to a wrong operator and two keys, one of them inside a group, comes
back as the program without them. The query of a spec with an empty segment comes back with it,
and fails again. -/
theorem ofSpec_toSpec_fails_iff_in_group :
    let options : Options := {}
    let program : List Step := [
      .test .and (.truthy "open"),
      .group .and true [.test .and (.compareBy "age" "=>" (.number (.signed 18))),
        .keys .sort ["", "age"]],
      .keys .group ["kind."]]
    let q : Query := run (.empty options) program
    let loaded : Query := ofSpec { keys := { sort := [⟨"a..b"⟩] } } options
    Step.allDeclare program = true ∧ q.error = some (.unknownOperator "=>")
      ∧ SameRuns (ofSpec q.toSpec q.options)
          (run (.empty options) [
            .test .and (.truthy "open"), .group .and true [.keys .sort ["age"]],
            .keys .group []])
      ∧ loaded.error = some (.invalidPath "a..b" .emptySegment)
      ∧ ∃ e, (ofSpec loaded.toSpec loaded.options).FailsWith e := by
  intro options program q loaded
  have hprogram : Step.allDeclare program = true := rfl
  have herror : q.error = some (.unknownOperator "=>") := rfl
  have hloaded : loaded.error = some (.invalidPath "a..b" .emptySegment) := rfl
  have hrefused : ¬ options.Accepts ⟨"a..b"⟩ := by
    intro haccepts
    cases haccepts
  have hprograms := (ofSpec_toSpec_fails_iff q).2.2
  exact ⟨hprogram, herror, (hprograms options program hprogram rfl).2, hloaded,
    (ofSpec_toSpec_fails_iff loaded).1.mpr
      (Or.inl ⟨⟨"a..b"⟩, List.mem_singleton.mpr rfl, hrefused⟩)⟩

/-- A query fails for its wrong operator, but comes back from its spec without the test and counts
a record that the test was not asked about. -/
theorem ofSpec_toSpec_forgets_unknown_operator :
    let q : Query := run (.empty {}) [
      .test .and (.truthy "open"),
      .test .and (.compareBy "age" "=>" (.number (.signed 18)))]
    let record : Json := .object [("age", .ofInt 5 (by decide)), ("open", .bool true)]
    q.FailsWith (.unknownOperator "=>")
      ∧ (ofSpec q.toSpec q.options).count [record] = .ok 1
      ∧ ¬ ∃ e, (ofSpec q.toSpec q.options).FailsWith e := by
  intro q record
  have hfails : q.FailsWith (.unknownOperator "=>") := failsWith_of_predicate rfl
  have hcount : (ofSpec q.toSpec q.options).count [record] = .ok 1 := by decide +kernel
  refine ⟨hfails, hcount, ?_⟩
  rintro ⟨e, h⟩
  have herror := h.count [record]
  rw [hcount] at herror
  cases herror

end Query

end RecordQuery
