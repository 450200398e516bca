import RecordQuery.Proofs.Expr.Meaning
import RecordQuery.Proofs.Query.Built

/-!
# Nothing vacuous in a query

However a query is built, no branch of its condition is empty, and neither
is any group inside an item. That is not enough to tell a query without
items from one with some: an item that is always true, such as a spec may
bring, would make the condition trivial too. So the invariant is on items
that are a condition (`Expr.IsCondition`), which neither the negation nor
the group of conditions ceases to be (`IsCondition.group`). A query has
none but such items (`Built.hasConditions`), and so it is empty exactly if
its condition is trivial, and its condition says of every record the same
before and after normalization.
-/

namespace RecordQuery

namespace Expr

/-! ## Conditions -/

/-- No group of the expression is empty, and it is not true outright. -/
structure IsCondition (e : Expr) : Prop where
  noEmptyGroup : e.NoEmptyGroup
  not_true : e.reduce? ≠ some (literal true)

theorem noEmptyGroupIn_iff {es : List Expr} :
    NoEmptyGroupIn es ↔ ∀ e ∈ es, e.NoEmptyGroup := by
  induction es with
  | nil => simp [NoEmptyGroupIn]
  | cons e rest ih => simp only [NoEmptyGroupIn, ih, List.forall_mem_cons]

/-- Something remains of an expression without empty groups, since it has a value. -/
theorem NoEmptyGroup.reduce?_ne_none {e : Expr} (h : e.NoEmptyGroup) : e.reduce? ≠ none := by
  intro hnone
  have hvalue := value_eq_map_reduce? .null e
  rw [h.value_eq, hnone] at hvalue
  cases hvalue

mutual

theorem IsNormal.noEmptyGroup : ∀ {e : Expr}, e.IsNormal → e.NoEmptyGroup
  | literal _, _ | clause _, _ => trivial
  | not operand, h => by
      have hoperand : operand.IsNormal := h
      exact hoperand.noEmptyGroup
  | group _ members, ⟨hlen, hmembers⟩ =>
      ⟨List.ne_nil_of_length_pos (by omega), hmembers.noEmptyGroupIn⟩

theorem AllNormalIn.noEmptyGroupIn {k : Connective} :
    ∀ {es : List Expr}, AllNormalIn k es → NoEmptyGroupIn es
  | [], _ => trivial
  | _ :: _, ⟨⟨he, _⟩, hrest⟩ => ⟨he.noEmptyGroup, hrest.noEmptyGroupIn⟩

end

/-- A normal expression is a condition unless it is trivial. -/
theorem IsNormal.isCondition {e : Expr} (h : e.IsNormal) (htrivial : e.isTrivial = false) :
    e.IsCondition where
  noEmptyGroup := h.noEmptyGroup
  not_true := by
    rw [reduce?_of_isNormal h, Ne, Option.some.injEq, ← isTrivial_iff, htrivial]
    exact Bool.false_ne_true

theorem isCondition_clause (c : Clause) : (clause c).IsCondition where
  noEmptyGroup := trivial
  not_true h := by cases h

theorem IsCondition.not {e : Expr} (h : e.IsCondition) : (Expr.not e).IsCondition where
  noEmptyGroup := h.noEmptyGroup
  not_true htrue := by
    obtain ⟨_, -, hnot⟩ := Option.map_eq_some_iff.mp htrue
    cases hnot

theorem IsCondition.remains_ne_nil {k : Connective} {e : Expr} (h : e.IsCondition) :
    remains k e ≠ [] := by
  obtain ⟨kept, hkept⟩ := Option.ne_none_iff_exists'.mp h.noEmptyGroup.reduce?_ne_none
  intro hnil
  rw [remains_of_some hkept] at hnil
  have hback := (isNormal_of_reduce? hkept).ofMembers?_membersFor (k := k)
  rw [hnil] at hback
  cases hback

theorem IsCondition.remains_ne_true {k : Connective} {e : Expr} (h : e.IsCondition) :
    remains k e ≠ [literal true] := by
  obtain ⟨kept, hkept⟩ := Option.ne_none_iff_exists'.mp h.noEmptyGroup.reduce?_ne_none
  intro htrue
  rw [remains_of_some hkept] at htrue
  have hback := (isNormal_of_reduce? hkept).ofMembers?_membersFor (k := k)
  rw [htrue] at hback
  exact h.not_true (hkept.trans hback.symm)

theorem ofMembers?_eq_true {k : Connective} {es : List Expr}
    (h : ofMembers? k es = some (literal true)) : es = [literal true] := by
  match es with
  | [] => cases h
  | [e] => rw [Option.some.inj h]
  | _ :: _ :: _ => cases h

/-- A group of conditions is a condition: if the literal `true` were all that remains of the
group, it would be all that remains of its first member. -/
theorem IsCondition.group {k : Connective} {members : List Expr} (hne : members ≠ [])
    (h : ∀ e ∈ members, e.IsCondition) : (group k members).IsCondition where
  noEmptyGroup := ⟨hne, noEmptyGroupIn_iff.mpr fun e he => (h e he).noEmptyGroup⟩
  not_true htrue := by
    obtain ⟨first, rest, rfl⟩ := List.exists_cons_of_ne_nil hne
    have hfirst := h first List.mem_cons_self
    have hremains := ofMembers?_eq_true htrue
    rw [reduceMembers_cons] at hremains
    rcases List.append_eq_singleton_iff.mp hremains with ⟨hnil, -⟩ | ⟨hone, -⟩
    · exact hfirst.remains_ne_nil hnil
    · exact hfirst.remains_ne_true hone

end Expr

namespace Query

/-! ## The invariant -/

/-- No branch is empty, and all items are conditions. -/
def HasConditions (q : Query) : Prop :=
  ∀ branch ∈ q.branches, branch ≠ [] ∧ ∀ item ∈ branch, item.IsCondition

theorem HasConditions.of_branches_eq {q q' : Query} (h : q.HasConditions)
    (hq' : q'.branches = q.branches) : q'.HasConditions := by
  rw [HasConditions, hq']
  exact h

theorem HasConditions.addItem {q : Query} (h : q.HasConditions) (link : Link) {item : Expr}
    (hitem : item.IsCondition) : (q.addItem link item).HasConditions := by
  intro branch hbranch
  rcases mem_attach hbranch with hold | ⟨before, hbefore, rfl⟩
  · exact h branch hold
  · refine ⟨by simp, fun e he => ?_⟩
    rcases List.mem_append.mp he with hold | hnew
    · rcases hbefore with rfl | hmem
      · cases hold
      · exact (h before hmem).2 e hold
    · rw [List.mem_singleton.mp hnew]
      exact hitem

/-- The condition of a query with items is a condition. -/
theorem HasConditions.isCondition_rawExpression {q : Query} (h : q.HasConditions)
    (hne : q.branches ≠ []) : q.rawExpression.IsCondition := by
  refine .group (by simpa using hne) fun e he => ?_
  obtain ⟨branch, hbranch, rfl⟩ := List.mem_map.mp he
  exact .group (h branch hbranch).1 (h branch hbranch).2

theorem hasConditions_ofSpec (spec : Spec) (options : Options) :
    (ofSpec spec options).HasConditions := by
  intro branch hbranch
  cases htrivial : spec.filter.normalize.isTrivial with
  | true => simp [ofSpec, htrivial] at hbranch
  | false =>
      have hone : branch = [spec.filter.normalize] := by
        simpa [ofSpec, htrivial] using hbranch
      have hitem := (Expr.isNormal_normalize spec.filter).isCondition htrivial
      simpa [hone] using hitem

theorem HasConditions.addTest {q : Query} (h : q.HasConditions) (link : Link) (test : Test) :
    (q.addTest link test).HasConditions := by
  unfold Query.addTest
  cases test.clause q.options with
  | error e => exact h.of_branches_eq rfl
  | ok c => exact h.addItem link (Expr.isCondition_clause c)

theorem HasConditions.addGroup {q inner : Query} (h : q.HasConditions)
    (hinner : inner.HasConditions) (link : Link) (negated : Bool) :
    (q.addGroup link negated inner).HasConditions := by
  have hjoined : (q.joined inner).HasConditions := h.of_branches_eq rfl
  rw [addGroup_eq]
  cases hempty : inner.isEmpty with
  | true => exact hjoined
  | false =>
      have hraw := hinner.isCondition_rawExpression (List.isEmpty_eq_false_iff.mp hempty)
      cases negated with
      | false => exact hjoined.addItem link hraw
      | true => exact hjoined.addItem link hraw.not

/-- Every query that can be built has only conditions for items. -/
theorem Built.hasConditions {admits : Options → Prop} {q : Query} (h : Built admits q) :
    q.HasConditions := by
  induction h with
  | empty _ =>
      intro branch hbranch
      cases hbranch
  | ofSpec spec _ => exact hasConditions_ofSpec spec _
  | addKey role path _ ih => exact ih.of_branches_eq (branches_addKey role _ path)
  | addTest link test _ ih => exact ih.addTest link test
  | addGroup link negated _ _ ih ihinner => exact ih.addGroup ihinner link negated

/-! ## What follows for the condition -/

theorem HasConditions.isEmpty_eq {q : Query} (h : q.HasConditions) :
    q.isEmpty = q.expression.isTrivial := by
  cases hempty : q.isEmpty with
  | true =>
      have hnone : q.branches = [] := List.isEmpty_iff.mp hempty
      rw [expression, rawExpression, hnone]
      rfl
  | false =>
      have hraw := h.isCondition_rawExpression (List.isEmpty_eq_false_iff.mp hempty)
      obtain ⟨kept, hkept⟩ := Option.ne_none_iff_exists'.mp hraw.noEmptyGroup.reduce?_ne_none
      have hne : kept ≠ .literal true := fun htrue => hraw.not_true (htrue ▸ hkept)
      rw [expression, Expr.normalize, hkept, Option.getD_some, eq_comm, Bool.eq_false_iff, Ne,
        Expr.isTrivial_iff]
      exact hne

theorem HasConditions.eval_rawExpression {q : Query} (h : q.HasConditions) (record : Json) :
    q.rawExpression.eval record = q.expression.eval record := by
  by_cases hnone : q.branches = []
  · rw [expression, rawExpression, hnone]
    rfl
  · have hraw := h.isCondition_rawExpression hnone
    rw [expression, Expr.eval_normalize, hraw.noEmptyGroup.value_eq record, Option.getD_some]

/-- **Nothing in a query is vacuous.** Of whatever declarations, specs and groups it
is built, no branch is empty and no group in an item is; it has no item exactly
if its condition is trivial; and its condition as it was declared says of every
record what it says in normal form. -/
theorem Built.nothing_vacuous {admits : Options → Prop} {q : Query} (h : Built admits q) :
    (∀ branch ∈ q.branches, branch ≠ [] ∧ ∀ item ∈ branch, item.NoEmptyGroup)
    ∧ q.isEmpty = q.expression.isTrivial
    ∧ ∀ record : Json, q.rawExpression.eval record = q.expression.eval record := by
  have hconditions := h.hasConditions
  refine ⟨fun branch hbranch => ?_, hconditions.isEmpty_eq, hconditions.eval_rawExpression⟩
  obtain ⟨hne, hitems⟩ := hconditions branch hbranch
  exact ⟨hne, fun item hitem => (hitems item hitem).noEmptyGroup⟩

/-- A spec full of idle grouping, a test that fails, a group of nothing, and the negation of a
query from elsewhere whose condition is trivial. -/
theorem Built.nothing_vacuous_in_spec :
    let spec : Spec := { filter := .not (.any [.all [], .not (.any []), .literal false]) }
    let program : List Step := [
      .test .or (.compareBy "a" "=>" .null),
      .group .or true [.group .and false [], .test .and (.truthy "a..b")],
      .group .and true [.test .and (.truthy "a"), .reset, .test .or (.truthy "b")]]
    let elsewhere : Query :=
      Query.ofSpec { filter := .any [.literal true, .all []] } { maxDepth := 0 }
    let q : Query := (Query.run (Query.ofSpec spec {}) program).addGroup .or true elsewhere
    Built (fun _ => True) q
      ∧ q.branches = [[.not (.literal false), .not (.any [.all [.clause (.truthy ⟨"b"⟩)]])]]
      ∧ (∀ branch ∈ q.branches, branch ≠ [] ∧ ∀ item ∈ branch, item.NoEmptyGroup)
      ∧ q.isEmpty = q.expression.isTrivial
      ∧ ∀ record : Json, q.rawExpression.eval record = q.expression.eval record := by
  intro spec program elsewhere q
  have hrun : Built (fun _ => True) (Query.run (Query.ofSpec spec {}) program) :=
    .run (.ofSpec spec trivial) fun _ _ => trivial
  have hbuilt : Built (fun _ => True) q := hrun.addGroup .or true (.ofSpec _ trivial)
  exact ⟨hbuilt, rfl, hbuilt.nothing_vacuous⟩

end Query

end RecordQuery
