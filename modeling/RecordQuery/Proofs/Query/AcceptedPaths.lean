import RecordQuery.Proofs.Expr.Leaves
import RecordQuery.Proofs.Query.Built

/-!
# Accepted paths

A query without error has only paths that its options accept, however
it was built (`Built.checked`). Each declaration checks the paths it
brings, or reads them from a spec whose paths are all checked, or takes
them over from a group that was checked under the same options; a path
that is refused is an error, and an error is never lost. Acceptance only
reads the text of a path, so what has been accepted is accepted again.
-/

namespace RecordQuery

/-! ## Acceptance of a text -/

/-- A computation that succeeds did so step by step. -/
theorem exists_of_bind_eq_ok {ε α β : Type} {x : Except ε α} {f : α → Except ε β} {b : β}
    (h : x >>= f = .ok b) : ∃ a, x = .ok a ∧ f a = .ok b := by
  cases x with
  | error e => cases h
  | ok a => exact ⟨a, rfl, h⟩

theorem FieldPath.parse_eq_ok {text : String} {path : FieldPath}
    (h : FieldPath.parse text = .ok path) : path = ⟨text⟩ := by
  unfold FieldPath.parse at h
  dsimp only at h
  split at h
  · cases h
  · split at h
    · cases h
    · exact (Except.ok.inj h).symm

theorem FieldPath.parseStrict_eq_ok {text : String} {path : FieldPath}
    (h : FieldPath.parseStrict text = .ok path) : path = ⟨text⟩ := by
  obtain ⟨parsed, hparse, hchecked⟩ := exists_of_bind_eq_ok h
  split at hchecked
  · rw [← Except.ok.inj hchecked]
    exact FieldPath.parse_eq_ok hparse
  · cases hchecked

namespace Options

/-- The options accept the text of the path. -/
def Accepts (options : Options) (path : FieldPath) : Prop :=
  options.accept path.text = .ok path

theorem eq_of_accept {options : Options} {text : String} {path : FieldPath}
    (h : options.accept text = .ok path) : path = ⟨text⟩ := by
  unfold Options.accept Options.check at h
  split at h
  · split at h
    · exact FieldPath.parseStrict_eq_ok h
    · exact FieldPath.parse_eq_ok h
  · exact (Except.ok.inj h).symm

/-- The path of an accepted text is accepted again. -/
theorem accepts_of_accept {options : Options} {text : String} {path : FieldPath}
    (h : options.accept text = .ok path) : options.Accepts path := by
  obtain rfl := eq_of_accept h
  exact h

end Options

/-! ## Acceptance of a declared test -/

/-- A test is refused unless all paths of its clause are accepted. -/
theorem Test.accepts_of_clause {options : Options} {test : Test} {c : Clause}
    (h : test.clause options = .ok c) : ∀ path ∈ c.paths, options.Accepts path := by
  cases test with
  | truthy text | compare text _ _ | includes text _ | contains text _ | oneOf text _ =>
      obtain ⟨field, hfield, hc⟩ := exists_of_bind_eq_ok h
      obtain rfl := Except.ok.inj hc
      intro path hpath
      obtain rfl : path = field := List.mem_singleton.mp hpath
      exact Options.accepts_of_accept hfield
  | compareBy text token _ =>
      obtain ⟨op, -, hop⟩ := exists_of_bind_eq_ok h
      obtain ⟨field, hfield, hc⟩ := exists_of_bind_eq_ok hop
      obtain rfl := Except.ok.inj hc
      intro path hpath
      obtain rfl : path = field := List.mem_singleton.mp hpath
      exact Options.accepts_of_accept hfield
  | includesKey text key _ =>
      obtain ⟨field, hfield, hrest⟩ := exists_of_bind_eq_ok h
      obtain ⟨element, helement, hc⟩ := exists_of_bind_eq_ok hrest
      obtain rfl := Except.ok.inj hc
      intro path hpath
      rcases List.mem_cons.mp hpath with rfl | hpath
      · exact Options.accepts_of_accept hfield
      · obtain rfl : path = element := List.mem_singleton.mp hpath
        exact Options.accepts_of_accept helement

/-- The clause of a test with the operator `===`. -/
theorem Test.clause_strictEq {options : Options} {path : String} {v : Operand} {c : Clause}
    (h : (Test.compareBy path "===" v).clause options = .ok c) :
    options.accept path = .ok ⟨path⟩ ∧ c = .compare ⟨path⟩ .strictEq v := by
  have hparse : Operator.parse "===" = .ok .strictEq := rfl
  obtain ⟨op, hop, hrest⟩ := exists_of_bind_eq_ok h
  obtain ⟨field, haccept, hc⟩ := exists_of_bind_eq_ok hrest
  obtain rfl := Except.ok.inj (hparse.symm.trans hop)
  obtain rfl := Options.eq_of_accept haccept
  exact ⟨haccept, (Except.ok.inj hc).symm⟩

namespace Query

/-! ## Paths of a query -/

/-- All paths of a query: those of its condition, then its keys. -/
def paths (q : Query) : List FieldPath :=
  q.rawExpression.paths ++ q.keys.all

theorem paths_rawExpression (q : Query) :
    q.rawExpression.paths = q.branches.flatten.flatMap Expr.paths := by
  have hbranch : (fun branch => (Expr.all branch).paths) = List.flatMap Expr.paths :=
    funext Expr.pathsOfAll_eq_flatMap
  rw [rawExpression, Expr.paths, Expr.pathsOfAll_eq_flatMap, List.flatMap_map, hbranch,
    ← List.flatMap_id', List.flatMap_assoc]

theorem mem_paths_addItem {q : Query} {link : Link} {item : Expr} {path : FieldPath} :
    path ∈ (q.addItem link item).paths ↔ path ∈ q.paths ∨ path ∈ item.paths := by
  have hraw : (q.addItem link item).rawExpression.paths
      = q.rawExpression.paths ++ item.paths := by
    rw [paths_rawExpression, paths_rawExpression, addItem, flatten_attach,
      List.flatMap_append, List.flatMap_singleton]
  have hkeys : (q.addItem link item).keys = q.keys := rfl
  rw [paths, paths, hraw, hkeys]
  simp only [List.mem_append]
  exact or_right_comm

theorem paths_groupItem (negated : Bool) (inner : Query) :
    (groupItem negated inner).paths = inner.rawExpression.paths := by
  cases negated <;> rfl

theorem mem_paths_addGroup {q inner : Query} {link : Link} {negated : Bool} {path : FieldPath}
    (h : path ∈ (q.addGroup link negated inner).paths) :
    path ∈ q.paths ∨ path ∈ inner.paths := by
  have hjoined : path ∈ (q.joined inner).paths → path ∈ q.paths ∨ path ∈ inner.paths := by
    intro hmem
    rcases List.mem_append.mp hmem with hraw | hkey
    · exact Or.inl (List.mem_append.mpr (Or.inl hraw))
    · exact (Keys.mem_all_merge hkey).imp (fun hq => List.mem_append.mpr (Or.inr hq))
        fun hinner => List.mem_append.mpr (Or.inr hinner)
  rw [addGroup_eq] at h
  split at h
  · exact hjoined h
  · rcases mem_paths_addItem.mp h with hq | hitem
    · exact hjoined hq
    · rw [paths_groupItem] at hitem
      exact Or.inr (List.mem_append.mpr (Or.inl hitem))

/-! ## The query of a spec -/

/-- The condition of a spec is one item of one branch, which normalization
unwraps again, or none if it is trivial. -/
theorem expression_ofSpec (spec : Spec) (options : Options) :
    (ofSpec spec options).expression = spec.filter.normalize := by
  have hnormal := Expr.isNormal_normalize spec.filter
  cases htrivial : spec.filter.normalize.isTrivial with
  | true =>
      have hbranches : (ofSpec spec options).branches = [] := by
        simp only [ofSpec, htrivial, if_true]
      rw [expression, rawExpression, hbranches, Expr.isTrivial_iff.mp htrivial]
      rfl
  | false =>
      have hbranches : (ofSpec spec options).branches = [[spec.filter.normalize]] := by
        simp [ofSpec, htrivial]
      rw [expression, rawExpression, hbranches, Expr.normalize]
      simp only [List.map_cons, List.map_nil, Expr.reduce?_group_singleton,
        Expr.reduce?_of_isNormal hnormal, Option.getD_some]

theorem paths_ofSpec (spec : Spec) (options : Options) :
    (ofSpec spec options).paths = spec.paths := by
  have hraw : (ofSpec spec options).rawExpression.paths = spec.filter.paths := by
    rw [← Expr.paths_normalize, ← expression, expression_ofSpec, Expr.paths_normalize]
  rw [paths, hraw]
  rfl

theorem firstPathError_eq_none {options : Options} :
    ∀ {paths : List FieldPath},
      firstPathError options paths = none ↔ ∀ path ∈ paths, options.Accepts path
  | [] => by simp [firstPathError]
  | path :: rest => by
      rw [firstPathError, List.forall_mem_cons, ← firstPathError_eq_none]
      cases haccept : options.accept path.text with
      | ok accepted =>
          obtain rfl := Options.eq_of_accept haccept
          exact ⟨fun h => ⟨haccept, h⟩, And.right⟩
      | error e =>
          constructor
          · intro h
            cases h
          · rintro ⟨h, -⟩
            rw [Options.Accepts, haccept] at h
            cases h

/-! ## Checked queries -/

/-- The query has an error, or the options accept all of its paths. -/
def Checked (options : Options) (q : Query) : Prop :=
  q.error = none → ∀ path ∈ q.paths, options.Accepts path

/-- A declaration that is wrong leaves an error, so nothing is claimed of the paths. -/
theorem checked_recordError (options : Options) (q : Query) (e : QueryError) :
    Checked options (q.recordError e) := by
  intro herror
  rw [recordError, Option.or_eq_none_iff] at herror
  cases herror.2

theorem checked_ofSpec (spec : Spec) (options : Options) :
    Checked options (ofSpec spec options) := by
  intro herror
  rw [paths_ofSpec]
  exact firstPathError_eq_none.mp herror

theorem Checked.addKey {q : Query} (h : Checked q.options q) (role : KeyRole) (text : String) :
    Checked q.options (q.addKey role text) := by
  unfold Query.addKey
  cases haccept : q.options.accept text with
  | error e => exact checked_recordError q.options q e
  | ok key =>
      intro herror path hpath
      rcases List.mem_append.mp hpath with hraw | hkey
      · exact h herror path (List.mem_append.mpr (Or.inl hraw))
      · rcases Keys.mem_all_add hkey with hold | rfl
        · exact h herror path (List.mem_append.mpr (Or.inr hold))
        · exact Options.accepts_of_accept haccept

theorem Checked.addTest {q : Query} (h : Checked q.options q) (link : Link) (test : Test) :
    Checked q.options (q.addTest link test) := by
  unfold Query.addTest
  cases hclause : test.clause q.options with
  | error e => exact checked_recordError q.options q e
  | ok c =>
      intro herror path hpath
      rcases mem_paths_addItem.mp hpath with hold | hnew
      · exact h herror path hold
      · exact Test.accepts_of_clause hclause path hnew

/-- A group hands over its error, so without an error both were checked. -/
theorem Checked.addGroup {options : Options} {q inner : Query} (hq : Checked options q)
    (hinner : Checked options inner) (link : Link) (negated : Bool) :
    Checked options (q.addGroup link negated inner) := by
  intro herror path hpath
  have hboth : q.error = none ∧ inner.error = none := by
    rw [← Option.or_eq_none_iff, ← herror, addGroup_eq]
    split <;> rfl
  rcases mem_paths_addGroup hpath with h | h
  · exact hq hboth.1 path h
  · exact hinner hboth.2 path h

/-- A query built under one options value has an error, or only paths that
these options accept. -/
theorem Built.checked {options : Options} {q : Query} (h : Built (· = options) q) :
    Checked options q := by
  induction h with
  | empty hoptions =>
      intro _ path hpath
      cases hpath
  | ofSpec spec hoptions =>
      obtain rfl := hoptions
      exact checked_ofSpec spec _
  | addKey role text hq ih =>
      obtain rfl := hq.admits_options
      exact ih.addKey role text
  | addTest link test hq ih =>
      obtain rfl := hq.admits_options
      exact ih.addTest link test
  | addGroup link negated _ _ ihq ihinner => exact ihq.addGroup ihinner link negated

end Query

end RecordQuery
