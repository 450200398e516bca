import RecordQuery.Proofs.Clause.IgnoredCase
import RecordQuery.Proofs.Expr.Replacement
import RecordQuery.Proofs.Query.AcceptedPaths
import RecordQuery.Proofs.Query.Reading
import RecordQuery.Proofs.Query.Runs

/-!
# Queries that do not mind the case

The query of a program that does not mind the case is the query that does,
with its searches replaced (`run_ignoringCase`). So both are accepted or
neither, and what the second keeps the first keeps too, as long as no group
is negated and no search loses what it has found
(`sublist_filter_ignoringCase`). A search loses nothing if the capital
sigmas of its needle are settled, and that is all that can go wrong
(`search_ignoring_case_keeps_matches`).
-/

namespace RecordQuery

open Text (KeepsSigmas SettlesSigmas)

/-! ## Searches replaced -/

/-- The options that do not mind the case. -/
def Options.ignoringCase (options : Options) : Options :=
  { options with caseSensitiveContains := false }

/-- The search that does not mind the case. -/
def Clause.ignoringCase : Clause → Clause
  | contains field needle true => ofNeedle field needle false
  | clause => clause

theorem Test.clause_ignoringCase {options : Options} (h : options.caseSensitiveContains = true)
    (t : Test) : t.clause options.ignoringCase = (t.clause options).map Clause.ignoringCase := by
  have haccept : options.ignoringCase.accept = options.accept := rfl
  cases t with
  | truthy path | compare path _ _ | includes path _ | oneOf path _ =>
      rw [clause, clause, haccept]
      cases options.accept path <;> rfl
  | compareBy path token _ =>
      rw [clause, clause, haccept]
      cases Operator.parse token with
      | error e => rfl
      | ok op => cases options.accept path <;> rfl
  | includesKey path key _ =>
      rw [clause, clause, haccept]
      cases options.accept path with
      | error e => rfl
      | ok field => cases options.accept key <;> rfl
  | contains path needle =>
      rw [clause, clause, haccept, h]
      cases options.accept path <;> rfl

namespace Query

/-- The query with all its searches replaced by ones that do not mind the case. -/
def ignoringCase (q : Query) : Query :=
  { q with
    options := q.options.ignoringCase
    branches := q.branches.map (List.map (Expr.mapClauses Clause.ignoringCase)) }

theorem rawExpression_ignoringCase (q : Query) :
    q.ignoringCase.rawExpression = q.rawExpression.mapClauses Clause.ignoringCase := by
  rw [rawExpression, rawExpression, Expr.mapClauses, Expr.mapClausesOfAll_eq_map, ignoringCase,
    List.map_map, List.map_map]
  congr 1
  refine List.map_congr_left fun branch _ => ?_
  rw [Function.comp_apply, Function.comp_apply, Expr.mapClauses, Expr.mapClausesOfAll_eq_map]

theorem addItem_ignoringCase (q : Query) (link : Link) (item : Expr) :
    (q.addItem link item).ignoringCase
      = q.ignoringCase.addItem link (item.mapClauses Clause.ignoringCase) := by
  rw [ignoringCase, addItem, addItem]
  simp only [map_attach]
  rfl

theorem addTest_ignoringCase {q : Query} (h : q.options.caseSensitiveContains = true) (link : Link)
    (t : Test) : (q.addTest link t).ignoringCase = q.ignoringCase.addTest link t := by
  have hclause : t.clause q.ignoringCase.options = (t.clause q.options).map Clause.ignoringCase :=
    Test.clause_ignoringCase h t
  rw [addTest, addTest, hclause]
  cases t.clause q.options with
  | ok c => exact addItem_ignoringCase q link (.clause c)
  | error e => rfl

theorem addKeys_ignoringCase (role : KeyRole) : ∀ (paths : List String) (q : Query),
    (q.addKeys role paths).ignoringCase = q.ignoringCase.addKeys role paths
  | [], _ => rfl
  | path :: rest, q => by
      have hkey : (q.addKey role path).ignoringCase = q.ignoringCase.addKey role path := by
        have haccept : q.ignoringCase.options.accept path = q.options.accept path := rfl
        rw [addKey, addKey, haccept]
        cases q.options.accept path <;> rfl
      have hrest := addKeys_ignoringCase role rest (q.addKey role path)
      rw [hkey] at hrest
      exact hrest

theorem addGroup_ignoringCase (q : Query) (link : Link) (negated : Bool) (inner : Query) :
    (q.addGroup link negated inner).ignoringCase
      = q.ignoringCase.addGroup link negated inner.ignoringCase := by
  have hempty : inner.ignoringCase.isEmpty = inner.isEmpty := List.isEmpty_map
  have hitem : groupItem negated inner.ignoringCase
      = (groupItem negated inner).mapClauses Clause.ignoringCase := by
    rw [groupItem, groupItem, rawExpression_ignoringCase]
    cases negated <;> rfl
  have hjoined : (q.joined inner).ignoringCase = q.ignoringCase.joined inner.ignoringCase := rfl
  rw [addGroup_eq, addGroup_eq, hempty, hitem, ← hjoined]
  split
  · rfl
  · exact addItem_ignoringCase _ link _

mutual

theorem apply_ignoringCase {q : Query} (h : q.options.caseSensitiveContains = true) :
    ∀ {step : Step}, step.declares = true →
      (q.apply step).ignoringCase = q.ignoringCase.apply step
  | .keys role paths, _ => addKeys_ignoringCase role paths q
  | .test link t, _ => addTest_ignoringCase h link t
  | .group link negated program, hprogram => by
      have hinner := run_ignoringCase (q := .empty q.options) h hprogram
      rw [Query.apply, Query.apply, addGroup_ignoringCase, hinner]
      rfl

/-- A program that does not mind the case makes the same query but for the searches. -/
theorem run_ignoringCase {q : Query} (h : q.options.caseSensitiveContains = true) :
    ∀ {program : List Step}, Step.allDeclare program = true →
      (q.run program).ignoringCase = q.ignoringCase.run program
  | [], _ => rfl
  | step :: rest, hprogram => by
      rw [Step.allDeclare, Bool.and_eq_true] at hprogram
      have hoptions : (q.apply step).options.caseSensitiveContains = true := by
        rw [options_apply hprogram.1]
        exact h
      rw [Query.run, Query.run, run_ignoringCase hoptions hprogram.2,
        apply_ignoringCase h hprogram.1]

end

/-- The query is accepted as before, and its condition is the old one with the searches
replaced. -/
theorem predicate_ignoringCase {q : Query} {p : Predicate} (h : q.predicate = .ok p) :
    q.ignoringCase.predicate = .ok ⟨p.expression.mapClauses Clause.ignoringCase⟩ := by
  obtain ⟨herror, haccepted⟩ := predicate_eq_ok h
  have herror' : q.ignoringCase.error = none := herror
  have hexpression : q.ignoringCase.expression
      = q.expression.mapClauses Clause.ignoringCase := by
    rw [expression, expression, rawExpression_ignoringCase, Expr.normalize_mapClauses]
  have hoptions : q.ignoringCase.options.maxDepth = q.options.maxDepth := rfl
  rw [predicate, herror', hexpression]
  rw [Predicate.ofExpr] at haccepted ⊢
  rw [Expr.normalize_mapClauses, Expr.depth_mapClauses, hoptions]
  split at haccepted
  · cases haccepted
  · rename_i hdepth
    cases haccepted
    rw [if_neg hdepth]

end Query

/-! ## Programs whose searches lose nothing -/

/-- The needles that a test searches for without a relation to a literal. -/
def Test.needles : Test → List String
  | contains _ needle => [needle]
  | _ => []

namespace Step

mutual

/-- The needles of all searches of a declaration. -/
def needles : Step → List String
  | test _ t => t.needles
  | group _ _ program => allNeedles program
  | keys _ _ | reset | reload _ => []

def allNeedles : List Step → List String
  | [] => []
  | step :: rest => step.needles ++ allNeedles rest

end

mutual

/-- No group of the declaration is negated. -/
def isPositive : Step → Bool
  | group _ negated program => !negated && allPositive program
  | keys _ _ | test _ _ | reset | reload _ => true

def allPositive : List Step → Bool
  | [] => true
  | step :: rest => step.isPositive && allPositive rest

end

end Step

theorem Clause.matchesRecord_le_ignoringCase {c : Clause}
    (h : ∀ field needle, c = .contains field needle true → SettlesSigmas needle.toList)
    (record : Json) : c.matchesRecord record ≤ c.ignoringCase.matchesRecord record := by
  unfold ignoringCase
  split
  · rename_i field needle
    exact matchesRecord_of_settlesSigmas (h field needle rfl)
  · exact Bool.le_refl _

theorem Test.mem_needles_of_clause {options : Options} {t : Test} {field : FieldPath}
    {needle : String} (h : t.clause options = .ok (.contains field needle true)) :
    needle ∈ t.needles := by
  cases t with
  | truthy path | compare path _ _ | includes path _ | oneOf path _ =>
      obtain ⟨_, -, h⟩ := exists_of_bind_eq_ok h
      cases h
  | compareBy path token _ =>
      obtain ⟨_, -, h⟩ := exists_of_bind_eq_ok h
      obtain ⟨_, -, h⟩ := exists_of_bind_eq_ok h
      cases h
  | includesKey path key _ =>
      obtain ⟨_, -, h⟩ := exists_of_bind_eq_ok h
      obtain ⟨_, -, h⟩ := exists_of_bind_eq_ok h
      cases h
  | contains path searched =>
      obtain ⟨path, -, h⟩ := exists_of_bind_eq_ok h
      have hclause := Except.ok.inj h
      rw [Clause.ofNeedle, Clause.contains.injEq] at hclause
      obtain ⟨-, rfl, hcase⟩ := hclause
      rw [hcase]
      exact List.mem_singleton.mpr rfl

namespace Query

/-- No item of the condition says no of the record, having said yes, once its searches are
replaced. -/
def Grows (record : Json) (q : Query) : Prop :=
  ∀ branch ∈ q.branches, ∀ item ∈ branch, item.Grows Clause.ignoringCase record

variable {q : Query} {record : Json}

theorem Grows.of_branches_eq {q' : Query} (h : q.Grows record) (hq' : q'.branches = q.branches) :
    q'.Grows record := by
  rw [Grows, hq']
  exact h

theorem Grows.addItem (h : q.Grows record) (link : Link) {item : Expr}
    (hitem : item.Grows Clause.ignoringCase record) : (q.addItem link item).Grows record := by
  intro branch hbranch e he
  rcases mem_attach hbranch with hold | ⟨before, hbefore, rfl⟩
  · exact h branch hold e he
  · rcases List.mem_append.mp he with hold | hnew
    · rcases hbefore with rfl | hmem
      · cases hold
      · exact h before hmem e hold
    · rw [List.mem_singleton.mp hnew]
      exact hitem

theorem Grows.rawExpression (h : q.Grows record) :
    q.rawExpression.Grows Clause.ignoringCase record := by
  refine Expr.growsIn_iff.mpr fun e he => ?_
  obtain ⟨branch, hbranch, rfl⟩ := List.mem_map.mp he
  exact Expr.growsIn_iff.mpr (h branch hbranch)

theorem Grows.addTest (h : q.Grows record) (link : Link) {t : Test}
    (hneedles : ∀ needle ∈ t.needles, SettlesSigmas needle.toList) :
    (q.addTest link t).Grows record := by
  rw [Query.addTest]
  cases hclause : t.clause q.options with
  | ok c =>
      refine h.addItem link (Clause.matchesRecord_le_ignoringCase ?_ record)
      rintro field needle rfl
      exact hneedles needle (Test.mem_needles_of_clause hclause)
  | error e => exact h.of_branches_eq rfl

mutual

theorem Grows.apply {q : Query} {record : Json} (h : q.Grows record) : ∀ {step : Step},
    step.declares = true → step.isPositive = true →
    (∀ needle ∈ step.needles, SettlesSigmas needle.toList) → (q.apply step).Grows record
  | .keys role paths, _, _, _ => h.of_branches_eq (branches_addKeys role paths q)
  | .test link t, _, _, hneedles => h.addTest link hneedles
  | .group link negated program, hprogram, hpositive, hneedles => by
      obtain ⟨hnegated, hpositive⟩ := Bool.and_eq_true_iff.mp hpositive
      obtain rfl : negated = false := by simpa using hnegated
      have hempty : (Query.empty q.options).Grows record := fun _ hbranch => nomatch hbranch
      have hinner := hempty.run hprogram hpositive hneedles
      have hjoined : (q.joined ((Query.empty q.options).run program)).Grows record :=
        h.of_branches_eq rfl
      rw [Query.apply, addGroup_eq]
      split
      · exact hjoined
      · exact hjoined.addItem link hinner.rawExpression

theorem Grows.run {q : Query} {record : Json} (h : q.Grows record) : ∀ {program : List Step},
    Step.allDeclare program = true → Step.allPositive program = true →
    (∀ needle ∈ Step.allNeedles program, SettlesSigmas needle.toList) →
    (q.run program).Grows record
  | [], _, _, _ => h
  | step :: rest, hprogram, hpositive, hneedles => by
      obtain ⟨hstep, hrest⟩ := Bool.and_eq_true_iff.mp hprogram
      obtain ⟨hpositive, hpositives⟩ := Bool.and_eq_true_iff.mp hpositive
      obtain ⟨hneedle, hneedles⟩ := List.forall_mem_append.mp hneedles
      rw [Query.run]
      exact (h.apply hstep hpositive hneedle).run hrest hpositives hneedles

end

/-- What the query keeps, it keeps with its searches replaced. -/
theorem sublist_filter_ignoringCase {kept records : List Json}
    (h : ∀ record, q.Grows record) (hkept : q.filter records = .ok kept) :
    ∃ kept', q.ignoringCase.filter records = .ok kept' ∧ kept.Sublist kept' := by
  rcases hpredicate : q.predicate with e | p
  · rw [(failsWith_of_predicate hpredicate).filter] at hkept
    cases hkept
  · have hreplaced := predicate_ignoringCase hpredicate
    rw [(keepsBy_of_predicate hpredicate).filter, Except.ok.injEq] at hkept
    refine ⟨_, (keepsBy_of_predicate hreplaced).filter records, ?_⟩
    rw [← hkept]
    refine List.monotone_filter_right records fun record => ?_
    have hbefore := matchesRecord_of_predicate hpredicate record
    have hafter := matchesRecord_of_predicate hreplaced record
    rw [(keepsBy_of_predicate hpredicate).matchesRecord, Except.ok.injEq] at hbefore
    rw [(keepsBy_of_predicate hreplaced).matchesRecord, Except.ok.injEq,
      rawExpression_ignoringCase] at hafter
    have hvalue := (h record).rawExpression.value_le
    rw [hbefore, hafter]
    generalize q.rawExpression.value record = before at hvalue ⊢
    generalize (q.rawExpression.mapClauses Clause.ignoringCase).value record = after at hvalue ⊢
    cases hvalue with
    | none => exact Bool.le_refl _
    | some hle => exact hle

/-- **Ignoring the case loses no match, but for sigmas.** A search that minds the case is followed
by the one that does not in every record exactly if the form of each capital sigma of the needle is
settled within it, and in any case where the sigmas keep their form. Queries without negated groups
whose needles are of this kind keep at least as many records when they do not mind the case. -/
theorem search_ignoring_case_keeps_matches (field : FieldPath) (needle : String)
    (options : Options) (program : List Step) :
    ((∀ record : Json, (Clause.ofNeedle field needle true).matchesRecord record = true →
        (Clause.ofNeedle field needle false).matchesRecord record = true)
      ↔ SettlesSigmas needle.toList)
    ∧ (∀ (record : Json) (before after : List Char),
      field.resolve record = .string (String.ofList (before ++ (needle.toList ++ after))) →
      KeepsSigmas before needle.toList after →
      (Clause.ofNeedle field needle true).matchesRecord record = true →
      (Clause.ofNeedle field needle false).matchesRecord record = true)
    ∧ (Step.allDeclare program = true → Step.allPositive program = true →
      (∀ searched ∈ Step.allNeedles program, SettlesSigmas searched.toList) →
      ∀ records kept : List Json,
      (run (.empty { options with caseSensitiveContains := true }) program).filter records
        = .ok kept →
      ∃ kept', (run (.empty { options with caseSensitiveContains := false }) program).filter records
          = .ok kept'
        ∧ kept.Sublist kept') := by
  refine ⟨Clause.forall_matchesRecord_iff_settlesSigmas,
    fun record before after hvalue hkeeps h =>
      Clause.matchesRecord_of_keepsSigmas hvalue hkeeps h, ?_⟩
  intro hprogram hpositive hneedles records kept hkept
  have hgrows : ∀ record,
      (run (.empty { options with caseSensitiveContains := true }) program).Grows record := by
    intro record
    have hempty : (Query.empty { options with caseSensitiveContains := true }).Grows record :=
      fun _ hbranch => nomatch hbranch
    exact hempty.run hprogram hpositive hneedles
  obtain ⟨kept', hkept', hsublist⟩ := sublist_filter_ignoringCase hgrows hkept
  rw [run_ignoringCase rfl hprogram] at hkept'
  exact ⟨kept', hkept', hsublist⟩

/-- The sigma in `ΟΔΟΣ Α` is settled by the letter before it and the blank after it. The one in `ΑΣ`
is not, but it keeps its form before a comma. -/
theorem search_ignoring_case_keeps_final_sigma :
    let field : FieldPath := ⟨"t"⟩
    let way : Json := .object [("t", .string "Η ΟΔΟΣ ΑΥΤΗ")]
    let word : Json := .object [("t", .string "ΜΑΣ, ΜΑΣΑ")]
    let program : List Step :=
      [.group .and false [.test .or (.contains "t" "ΟΔΟΣ Α")], .test .or (.truthy "s")]
    (SettlesSigmas "ΟΔΟΣ Α".toList
        ∧ (Clause.ofNeedle field "ΟΔΟΣ Α" true).matchesRecord way = true
        ∧ (Clause.ofNeedle field "ΟΔΟΣ Α" false).matchesRecord way = true)
      ∧ (¬ SettlesSigmas "ΑΣ".toList ∧ KeepsSigmas ['Μ'] "ΑΣ".toList ", ΜΑΣΑ".toList
        ∧ (Clause.ofNeedle field "ΑΣ" true).matchesRecord word = true
        ∧ (Clause.ofNeedle field "ΑΣ" false).matchesRecord word = true)
      ∧ (run (.empty { caseSensitiveContains := true }) program).filter [word, way] = .ok [way]
      ∧ ∃ kept', (run (.empty { caseSensitiveContains := false }) program).filter [word, way]
          = .ok kept' ∧ [way].Sublist kept' := by
  intro field way word program
  obtain ⟨hneedle, -, hquery⟩ := search_ignoring_case_keeps_matches field "ΟΔΟΣ Α" {} program
  obtain ⟨-, htext, -⟩ := search_ignoring_case_keeps_matches field "ΑΣ" {} program
  have hsettles : SettlesSigmas "ΟΔΟΣ Α".toList := by decide +kernel
  have hkeeps : KeepsSigmas ['Μ'] "ΑΣ".toList ", ΜΑΣΑ".toList := by decide +kernel
  have hway : (Clause.ofNeedle field "ΟΔΟΣ Α" true).matchesRecord way = true := by decide +kernel
  have hword : (Clause.ofNeedle field "ΑΣ" true).matchesRecord word = true := by decide +kernel
  have hkept : (run (.empty { caseSensitiveContains := true }) program).filter [word, way]
      = .ok [way] := by decide +kernel
  have hneedles : ∀ needle ∈ Step.allNeedles program, SettlesSigmas needle.toList := by
    intro needle hmem
    obtain rfl : needle = "ΟΔΟΣ Α" := by simpa [program, Step.allNeedles, Step.needles,
      Test.needles] using hmem
    exact hsettles
  exact ⟨⟨hsettles, hway, hneedle.mpr hsettles way hway⟩,
    ⟨by decide +kernel, hkeeps, hword,
      htext word ['Μ'] ", ΜΑΣΑ".toList (by decide +kernel) hkeeps hword⟩,
    hkept, hquery rfl rfl hneedles _ _ hkept⟩

/-- The text `ΑΣΑ` has the part `ΑΣ`, but not when both are in lower case: `ας` ends with the final
form of the sigma, which has a letter after it in `ασα`. -/
theorem search_ignoring_case_loses_sigma :
    let field : FieldPath := ⟨"t"⟩
    let record : Json := .object [("t", .string "ΑΣΑ")]
    let program : List Step := [.test .and (.contains "t" "ΑΣ")]
    (Clause.ofNeedle field "ΑΣ" true).matchesRecord record = true
      ∧ (Clause.ofNeedle field "ΑΣ" false).matchesRecord record = false
      ∧ (run (.empty { caseSensitiveContains := true }) program).filter [record] = .ok [record]
      ∧ (run (.empty { caseSensitiveContains := false }) program).filter [record] = .ok [] := by
  intro field record program
  refine ⟨by decide +kernel, by decide +kernel, by decide +kernel, by decide +kernel⟩

end Query

end RecordQuery
