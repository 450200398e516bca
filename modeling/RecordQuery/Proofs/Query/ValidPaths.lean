import RecordQuery.Proofs.Expr.Clauses
import RecordQuery.Proofs.Query.AcceptedPaths

/-!
# Invalid paths are errors

Where options ask for a check of paths, no query without error has a path
that fails the check, whichever way it came in, and a spec with such a
path makes a query with an error. What is accepted is said here by the
text of the path alone (`FieldPath.IsValid`), and the paths of an
expression by its clauses (`Expr.mem_paths_iff`), so that no path is
hidden by how deep its clause is nested.
-/

namespace RecordQuery

namespace FieldPath

/-! ## Valid paths -/

/-- An ASCII letter, an underscore or a dollar sign, and behind it the same or ASCII digits. -/
def IsIdentifier (segment : String) : Prop :=
  ∃ first rest, segment.toList = first :: rest ∧ startsIdentifier first = true
    ∧ ∀ c ∈ rest, startsIdentifier c = true ∨ c.isDigit = true

/-- One ASCII digit or more. -/
def IsIndex (segment : String) : Prop :=
  segment ≠ "" ∧ ∀ c ∈ segment.toList, c.isDigit = true

/-- The path is accepted as it is written, also by the strict check if that is asked for. -/
structure IsValid (strict : Bool) (path : FieldPath) : Prop where
  parse : FieldPath.parse path.text = .ok path
  parseStrict : strict = true → FieldPath.parseStrict path.text = .ok path
  segments : strict = true → ∀ segment ∈ path.segments, IsIdentifier segment ∨ IsIndex segment

theorem isIdentifier_or_isIndex {segment : String}
    (h : isIdentifierOrIndex segment.toList = true) :
    IsIdentifier segment ∨ IsIndex segment := by
  unfold isIdentifierOrIndex at h
  split at h
  · cases h
  · rename_i first rest htext
    rw [Bool.or_eq_true, Bool.and_eq_true, List.all_eq_true, List.all_eq_true] at h
    rcases h with ⟨hfirst, hrest⟩ | hdigits
    · refine Or.inl ⟨first, rest, htext, hfirst, fun c hc => ?_⟩
      exact (Bool.or_eq_true ..).mp (hrest c hc)
    · refine Or.inr ⟨?_, fun c hc => hdigits c (htext ▸ hc)⟩
      rintro rfl
      cases htext

/-- The strict check begins with the other one. -/
theorem isValid_of_parseStrict {path : FieldPath}
    (h : FieldPath.parseStrict path.text = .ok path) : path.IsValid true := by
  obtain ⟨parsed, hparse, hchecked⟩ := exists_of_bind_eq_ok h
  obtain rfl : parsed = path := parse_eq_ok hparse
  split at hchecked
  · rename_i hsegments
    refine ⟨hparse, fun _ => h, fun _ segment hsegment => ?_⟩
    exact isIdentifier_or_isIndex (List.all_eq_true.mp hsegments segment hsegment)
  · cases hchecked

theorem isValid_iff {strict : Bool} {path : FieldPath} :
    path.IsValid strict
      ↔ (if strict then FieldPath.parseStrict path.text else FieldPath.parse path.text)
        = .ok path := by
  cases strict with
  | true => exact ⟨fun h => h.parseStrict rfl, isValid_of_parseStrict⟩
  | false => exact ⟨IsValid.parse, fun h => ⟨h, nofun, nofun⟩⟩

end FieldPath

/-- Options that check paths accept the valid ones. -/
theorem Options.accepts_iff {options : Options} (h : options.validatePaths = true)
    {path : FieldPath} : options.Accepts path ↔ path.IsValid options.strictPaths := by
  rw [FieldPath.isValid_iff, Options.Accepts, Options.accept, if_pos h, Options.check]

namespace Query

/-! ## Queries and specs under a check -/

theorem Built.isValid_of_mem {options : Options} {q : Query} (h : Built (· = options) q)
    (hvalidate : options.validatePaths = true) (herror : q.error = none) {path : FieldPath}
    (hpath : path ∈ q.expression.paths ++ q.keys.all) : path.IsValid options.strictPaths := by
  rw [expression, Expr.paths_normalize] at hpath
  exact (Options.accepts_iff hvalidate).mp (h.checked herror path hpath)

theorem error_ofSpec_eq_none_iff {options : Options} (h : options.validatePaths = true)
    {spec : Spec} :
    (ofSpec spec options).error = none
      ↔ (∀ c ∈ spec.filter.clauses, ∀ path ∈ c.paths, path.IsValid options.strictPaths)
        ∧ ∀ key ∈ spec.keys.all, key.IsValid options.strictPaths := by
  have herror : (ofSpec spec options).error = firstPathError options spec.paths := rfl
  rw [herror, firstPathError_eq_none, Spec.paths, List.forall_mem_append]
  simp only [Options.accepts_iff h, Expr.mem_paths_iff]
  constructor
  · rintro ⟨hclauses, hkeys⟩
    exact ⟨fun c hc path hpath => hclauses path ⟨c, hc, hpath⟩, hkeys⟩
  · rintro ⟨hclauses, hkeys⟩
    exact ⟨fun path ⟨c, hc, hpath⟩ => hclauses c hc path hpath, hkeys⟩

/-- **No path gets around the check.** Under options that ask for it, all paths of a
query without error are valid, of its condition as of its keys, however it was
built; and the query of a spec has an error exactly if some clause of the
spec, however deep, has a path that is not valid, or some key is not. -/
theorem isValid_or_error {options : Options} (hvalidate : options.validatePaths = true) :
    (∀ q : Query, Built (· = options) q → q.error = none →
      ∀ path ∈ q.expression.paths ++ q.keys.all, path.IsValid options.strictPaths)
    ∧ ∀ spec : Spec, (∃ e, (ofSpec spec options).error = some e)
      ↔ (∃ c ∈ spec.filter.clauses, ∃ path ∈ c.paths, ¬ path.IsValid options.strictPaths)
        ∨ ∃ key ∈ spec.keys.all, ¬ key.IsValid options.strictPaths := by
  constructor
  · intro q hbuilt herror path hpath
    exact hbuilt.isValid_of_mem hvalidate herror hpath
  · intro spec
    rw [← Option.ne_none_iff_exists', Ne, error_ofSpec_eq_none_iff hvalidate]
    simp only [Classical.not_and_iff_not_or_not, Classical.not_forall, exists_prop]

/-- A query with paths inside a group, and a spec in which the key of a list element, two
negations down, is no identifier. -/
theorem isValid_or_error_nested :
    let options : Options := { strictPaths := true }
    let deep : Clause := .includesKey ⟨"tags"⟩ ⟨"na-me"⟩ .null
    let spec : Spec := { filter := .not (.any [.literal false, .not (.clause deep)]) }
    let program : List Step := [.group .or true [.test .and (.truthy "a.0"), .keys .sort ["$id"]]]
    let q : Query := run (.empty options) program
    options.validatePaths = true ∧ Built (· = options) q ∧ q.error = none
      ∧ (∀ path ∈ q.expression.paths ++ q.keys.all, path.IsValid options.strictPaths)
      ∧ (∃ c ∈ spec.filter.clauses, ∃ path ∈ c.paths, ¬ path.IsValid options.strictPaths)
      ∧ ∃ e, (ofSpec spec options).error = some e := by
  intro options deep spec program q
  have hvalidate : options.validatePaths = true := rfl
  have hempty : Built (· = options) (.empty options) := .empty rfl
  have hnames : ∀ other ∈ Step.allReloadOptions program, other = options := by
    intro other hother
    cases hother
  have hbuilt : Built (· = options) q := hempty.run hnames
  have herror : q.error = none := rfl
  have hdeep : ∃ c ∈ spec.filter.clauses, ∃ path ∈ c.paths,
      ¬ path.IsValid options.strictPaths := by
    refine ⟨deep, List.mem_singleton.mpr rfl, ⟨"na-me"⟩, by decide, fun hvalid => ?_⟩
    have haccepted : FieldPath.parseStrict "na-me" = .ok ⟨"na-me"⟩ := hvalid.parseStrict rfl
    cases haccepted
  obtain ⟨hqueries, hspecs⟩ := isValid_or_error hvalidate
  exact ⟨hvalidate, hbuilt, herror, hqueries q hbuilt herror, hdeep,
    (hspecs spec).mpr (Or.inl hdeep)⟩

end Query

end RecordQuery
