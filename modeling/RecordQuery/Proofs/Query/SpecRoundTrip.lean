import RecordQuery.Proofs.Query.AcceptedPaths

/-!
# Specs and their queries

Turning a spec into a query and back, without a stored document in
between. From a spec nothing is lost but idle grouping, and the query
accepts its condition exactly when the condition is accepted as it
stands. From a query nothing is lost at all: the query of its spec has no
error, since all paths were checked under the same options, and every run
of it gives the same answer.
-/

namespace RecordQuery

/-- A predicate is made of the normal form, so normalizing before changes nothing. -/
theorem Predicate.ofExpr_normalize (e : Expr) (options : Options) :
    Predicate.ofExpr e.normalize options = Predicate.ofExpr e options := by
  rw [Predicate.ofExpr, Predicate.ofExpr, Expr.normalize_normalize]

namespace Query

/-! ## From a spec -/

theorem toSpec_ofSpec (spec : Spec) (options : Options) :
    (ofSpec spec options).toSpec = { spec with filter := spec.filter.normalize } := by
  rw [toSpec, expression_ofSpec]
  rfl

theorem predicate_of_error_eq_none {q : Query} (h : q.error = none) :
    q.predicate = Predicate.ofExpr q.expression q.options := by
  rw [predicate, h]

theorem predicate_ofSpec {spec : Spec} {options : Options}
    (h : (ofSpec spec options).error = none) :
    (ofSpec spec options).predicate = Predicate.ofExpr spec.filter options := by
  rw [predicate_of_error_eq_none h, expression_ofSpec]
  exact Predicate.ofExpr_normalize spec.filter options

/-! ## From a query -/

/-- Every run of the queries gives the same answer, or fails with the same error. -/
def SameRuns (q r : Query) : Prop :=
  (∀ records : List Json,
    q.get records = r.get records
      ∧ q.filter records = r.filter records
      ∧ q.count records = r.count records)
    ∧ ∀ record : Json, q.matchesRecord record = r.matchesRecord record

theorem sameRuns_of_predicate_eq {q r : Query} (hpredicate : q.predicate = r.predicate)
    (hkeys : q.keys = r.keys) : SameRuns q r := by
  refine ⟨fun records => ⟨?_, ?_, ?_⟩, fun record => ?_⟩
  · rw [get, get, hpredicate, hkeys]
  · rw [filter, filter, hpredicate]
  · rw [count, count, hpredicate]
  · rw [matchesRecord, matchesRecord, hpredicate]

theorem paths_toSpec (q : Query) : q.toSpec.paths = q.paths := by
  have hexpression : q.expression.paths = q.rawExpression.paths :=
    Expr.paths_normalize q.rawExpression
  rw [Spec.paths, paths, ← hexpression]
  rfl

theorem expression_ofSpec_toSpec (q : Query) (options : Options) :
    (ofSpec q.toSpec options).expression = q.expression := by
  rw [expression_ofSpec]
  exact Expr.normalize_normalize q.rawExpression

/-- What was checked once passes the check of the spec. -/
theorem error_ofSpec_toSpec {q : Query} {options : Options} (h : Checked options q)
    (herror : q.error = none) : (ofSpec q.toSpec options).error = none := by
  have hpaths := h herror
  rw [← paths_toSpec] at hpaths
  exact firstPathError_eq_none.mpr hpaths

theorem sameRuns_ofSpec_toSpec {q : Query} (h : Checked q.options q) (herror : q.error = none) :
    SameRuns (ofSpec q.toSpec q.options) q := by
  refine sameRuns_of_predicate_eq ?_ rfl
  rw [predicate_of_error_eq_none (error_ofSpec_toSpec h herror),
    predicate_of_error_eq_none herror, expression_ofSpec_toSpec]
  rfl

/-! ## Both ways -/

/-- **Specs lose nothing.** A spec comes back from its query with its condition in
normal form, and the query has the predicate of that condition unless a path
was wrong. A query without error, built under one options value, comes back
from its spec without error, with the same condition and keys, and answers
every run alike. -/
theorem ofSpec_toSpec_lossless :
    (∀ (spec : Spec) (options : Options),
      (ofSpec spec options).toSpec = { spec with filter := spec.filter.normalize }
      ∧ ((ofSpec spec options).error = none →
        (ofSpec spec options).predicate = Predicate.ofExpr spec.filter options))
    ∧ ∀ (options : Options) (q : Query), Built (· = options) q → q.error = none →
      (ofSpec q.toSpec q.options).error = none
      ∧ (ofSpec q.toSpec q.options).expression = q.expression
      ∧ (ofSpec q.toSpec q.options).keys = q.keys
      ∧ SameRuns (ofSpec q.toSpec q.options) q := by
  constructor
  · intro spec options
    exact ⟨toSpec_ofSpec spec options, predicate_ofSpec⟩
  · intro options q hbuilt herror
    have hchecked : Checked q.options q := by
      have hoptions : q.options = options := hbuilt.admits_options
      rw [hoptions]
      exact hbuilt.checked
    exact ⟨error_ofSpec_toSpec hchecked herror, expression_ofSpec_toSpec q q.options, rfl,
      sameRuns_ofSpec_toSpec hchecked herror⟩

/-- A spec with idle grouping, and a query with a negated group whose keys come
out of the group, both under the strict check of paths. -/
theorem ofSpec_toSpec_lossless_strict :
    let options : Options := { strictPaths := true }
    let spec : Spec := {
      filter := .any [.all [], .all [.clause (.truthy ⟨"tags.0"⟩)]]
      keys := { sort := [⟨"id"⟩, ⟨"id"⟩] } }
    let program : List Step := [
      .group .or true [
        .test .and (.includesKey "tags" "name" (.string "x")),
        .keys .group ["kind"]],
      .test .and (.truthy "done")]
    let q := run (.empty options) program
    (ofSpec spec options).error = none
      ∧ (ofSpec spec options).predicate = Predicate.ofExpr spec.filter options
      ∧ Built (· = options) q ∧ q.error = none
      ∧ (ofSpec q.toSpec q.options).error = none
      ∧ SameRuns (ofSpec q.toSpec q.options) q := by
  intro options spec program q
  have hspec : (ofSpec spec options).error = none := rfl
  have hnames : ∀ other ∈ Step.allReloadOptions program, other = options := by
    intro other hother
    cases hother
  have hempty : Built (· = options) (.empty options) := .empty rfl
  have hbuilt : Built (· = options) q := hempty.run hnames
  have herror : q.error = none := rfl
  obtain ⟨hfromSpec, hfromQuery⟩ := ofSpec_toSpec_lossless
  obtain ⟨hback, -, -, hruns⟩ := hfromQuery options q hbuilt herror
  exact ⟨hspec, (hfromSpec spec options).2 hspec, hbuilt, herror, hback, hruns⟩

end Query

end RecordQuery
