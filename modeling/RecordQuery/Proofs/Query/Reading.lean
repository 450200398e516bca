import Mathlib.Data.List.SplitBy
import RecordQuery.Proofs.Expr.Meaning
import RecordQuery.Proofs.Query.Declarations

/-!
# The reading of a program

What a program of declarations means, read off the program itself. Each
declaration is an item with a truth value or no item at all, the items
fall into branches wherever one is declared with `or`, and the program
says yes if one branch has only true items (`Step.valueOf`). A group is
the item with the value of its own program, so a group whose program has
no item is none, whichever way it is declared.

The query that a program builds says the same. The proof runs both at
once: `Reads` relates the branches of a query to branches of truth
values, each declaration keeps it (`Reads.apply`), and a whole program
does by recursion on it (`Reads.run`). Reading the branches off is
`Expr.value`, which normalization keeps.
-/

namespace RecordQuery

/-! ## The reading -/

/-- The branches that items make: an item with `or` starts a branch, any other one joins the
branch of the item before it. -/
def branchesOf {α : Type} (items : List (Link × α)) : List (List α) :=
  (items.splitBy fun _ next => next.1 == .and).map fun branch => branch.map Prod.snd

/-- The truth value of items: all of a branch, and any of the branches. -/
def readItems (items : List (Link × Bool)) : Option Bool :=
  Connective.any.join? ((branchesOf items).map Connective.all.join)

namespace Step

mutual

/-- The item that a declaration is for a record, if it is one. -/
def item? (options : Options) (record : Json) : Step → Option (Link × Bool)
  | test link t =>
    match t.clause options with
    | .ok c => some (link, c.matchesRecord record)
    | .error _ => none
  | group link negated program =>
    (readItems (items options record program)).map fun value =>
      (link, if negated then !value else value)
  | keys _ _ | reset | reload _ => none

/-- The items of a program, in order. -/
def items (options : Options) (record : Json) : List Step → List (Link × Bool)
  | [] => []
  | step :: rest => (step.item? options record).toList ++ items options record rest

end

/-- What a program says of a record, if it declares any condition. -/
def valueOf (options : Options) (record : Json) (program : List Step) : Option Bool :=
  readItems (items options record program)

mutual

/-- The step adds to a query: it neither takes anything back nor reads a stored query, and so
does no step inside it. -/
def declares : Step → Bool
  | keys _ _ | test _ _ => true
  | group _ _ program => allDeclare program
  | reset | reload _ => false

def allDeclare : List Step → Bool
  | [] => true
  | step :: rest => step.declares && allDeclare rest

end

theorem adds_of_declares : ∀ {step : Step}, step.declares = true → step.adds = true
  | keys _ _, _ | test _ _, _ | group _ _ _, _ => rfl

theorem adds_of_allDeclare {program : List Step} (h : allDeclare program = true) :
    ∀ step ∈ program, step.adds = true := by
  induction program with
  | nil => nofun
  | cons step rest ih =>
      rw [allDeclare, Bool.and_eq_true] at h
      exact List.forall_mem_cons.mpr ⟨adds_of_declares h.1, ih h.2⟩

end Step

namespace Query

/-! ## Attaching items one by one -/

/-- Branches with items attached one after the other. -/
def attachAll {α : Type} (branches : List (List α)) (items : List (Link × α)) :
    List (List α) :=
  items.foldl (fun done item => attach item.1 item.2 done) branches

/-- The loop behind `List.splitBy` holds the finished branches and the last one
reversed, and attaching goes through the same states. -/
theorem map_splitBy_loop {α : Type} :
    ∀ (items : List (Link × α)) (item : Link × α) (last : List (Link × α))
      (done : List (List (Link × α))),
      (List.splitBy.loop (fun _ next => next.1 == .and) items item last done).map
          (List.map Prod.snd)
        = attachAll ((done.reverse ++ [(item :: last).reverse]).map (List.map Prod.snd)) items
  | [], _, _, _ => by
      rw [List.splitBy.loop, List.reverse_cons]
      rfl
  | next :: rest, item, last, done => by
      have hattach := attach_concat next.1 next.2 ((item :: last).reverse.map Prod.snd)
        (done.reverse.map (List.map Prod.snd))
      rw [attachAll, List.foldl_cons, List.map_append, List.map_singleton, hattach]
      cases hlink : next.1 with
      | and =>
          have hjoin : (next.1 == Link.and) = true := by rw [hlink]; rfl
          simp only [List.splitBy.loop, hjoin, map_splitBy_loop rest]
          simp [attachAll]
      | or =>
          have hstart : (next.1 == Link.and) = false := by rw [hlink]; rfl
          simp only [List.splitBy.loop, hstart, map_splitBy_loop rest]
          simp [attachAll]

theorem attachAll_nil {α : Type} (items : List (Link × α)) :
    attachAll [] items = branchesOf items := by
  cases items with
  | nil => rfl
  | cons item rest =>
      exact (map_splitBy_loop rest item [] []).symm

/-- The first item starts the first branch, also with `or`. -/
example : branchesOf [(.or, 1), (.and, 2), (.or, 3), (.or, 4), (.and, 5)]
    = [[1, 2], [3], [4, 5]] := by decide

theorem ne_nil_of_mem_branchesOf {α : Type} {items : List (Link × α)} {branch : List α}
    (h : branch ∈ branchesOf items) : branch ≠ [] := by
  obtain ⟨tagged, htagged, rfl⟩ := List.mem_map.mp h
  intro hnil
  exact List.ne_nil_of_mem_splitBy htagged (List.map_eq_nil_iff.mp hnil)

/-! ## A query beside the values of its items -/

/-- The items of the query have the values, branch by branch; in particular
none of them is vacuous. -/
def Reads (record : Json) (q : Query) (values : List (List Bool)) : Prop :=
  q.branches.map (List.map (Expr.value record)) = values.map (List.map some)

theorem Reads.empty (record : Json) (options : Options) : Reads record (.empty options) [] :=
  rfl

theorem Reads.isEmpty_eq {record : Json} {q : Query} {values : List (List Bool)}
    (h : Reads record q values) : q.isEmpty = values.isEmpty := by
  have hlen := congrArg List.length h
  rw [List.length_map, List.length_map] at hlen
  rw [isEmpty, Bool.eq_iff_iff, List.isEmpty_iff_length_eq_zero,
    List.isEmpty_iff_length_eq_zero, hlen]

/-- The condition of the query has the value that the values of its items make. -/
theorem Reads.value_rawExpression {record : Json} {q : Query} {values : List (List Bool)}
    (h : Reads record q values) (hne : ∀ branch ∈ values, branch ≠ []) :
    q.rawExpression.value record
      = Connective.any.join? (values.map Connective.all.join) := by
  let joined (branch : List (Option Bool)) : Option Bool :=
    Connective.all.join? (branch.filterMap id)
  have hbranches : (q.branches.map Expr.all).map (Expr.value record)
      = (values.map Connective.all.join).map some :=
    calc (q.branches.map Expr.all).map (Expr.value record)
        = (q.branches.map (List.map (Expr.value record))).map joined := by
          rw [List.map_map, List.map_map]
          exact List.map_congr_left fun branch _ => Expr.value_group record .all branch
      _ = (values.map (List.map some)).map joined := by rw [h]
      _ = (values.map Connective.all.join).map some := by
          rw [List.map_map, List.map_map]
          refine List.map_congr_left fun branch hbranch => ?_
          have hpresent : (branch.map some).filterMap id = branch := by
            rw [List.filterMap_map, Function.id_comp, List.filterMap_some]
          show Connective.all.join? ((branch.map some).filterMap id) = _
          rw [hpresent]
          exact Connective.join?_of_ne_nil (hne branch hbranch)
  rw [rawExpression, Expr.value_group, hbranches, List.filterMap_map, Function.id_comp,
    List.filterMap_some]

/-- Items that have the values of a program make its value. -/
theorem Reads.value_of_branchesOf {record : Json} {q : Query} {items : List (Link × Bool)}
    (h : Reads record q (branchesOf items)) :
    q.rawExpression.value record = readItems items :=
  h.value_rawExpression fun _ => ne_nil_of_mem_branchesOf

theorem Reads.addItem {record : Json} {q : Query} {values : List (List Bool)}
    (h : Reads record q values) (link : Link) {item : Expr} {value : Bool}
    (hitem : item.value record = some value) :
    Reads record (q.addItem link item) (attach link value values) := by
  rw [Reads, Query.addItem, map_attach, map_attach, h, hitem]

/-! ## Each declaration keeps the reading -/

theorem Reads.of_branches_eq {record : Json} {q q' : Query} {values : List (List Bool)}
    (h : Reads record q values) (hq' : q'.branches = q.branches) : Reads record q' values := by
  rw [Reads, hq']
  exact h

/-- A group is one item with the value of its program, and none if its program
has no item. -/
theorem Reads.addGroup {record : Json} {q inner : Query} {values : List (List Bool)}
    {items : List (Link × Bool)} (h : Reads record q values)
    (hinner : Reads record inner (branchesOf items)) (link : Link) (negated : Bool) :
    Reads record (q.addGroup link negated inner)
      (attachAll values ((readItems items).map fun value =>
        (link, if negated then !value else value)).toList) := by
  have hjoined : Reads record (q.joined inner) values := h.of_branches_eq rfl
  have hvalue := hinner.value_of_branchesOf
  rw [addGroup_eq, hinner.isEmpty_eq]
  cases hempty : (branchesOf items).isEmpty with
  | true =>
      have hnone : branchesOf items = [] := List.isEmpty_iff.mp hempty
      rw [readItems, hnone]
      exact hjoined
  | false =>
      have hne : branchesOf items ≠ [] := List.isEmpty_eq_false_iff.mp hempty
      obtain ⟨value, hread⟩ : ∃ value, readItems items = some value :=
        ⟨_, Connective.join?_of_ne_nil (by simpa using hne)⟩
      rw [hread] at hvalue ⊢
      have hitem : (groupItem negated inner).value record
          = some (if negated then !value else value) := by
        cases negated with
        | false => exact hvalue
        | true => exact congrArg (Option.map (!·)) hvalue
      exact hjoined.addItem link hitem

theorem options_apply {q : Query} {step : Step} (h : step.declares = true) :
    (q.apply step).options = q.options :=
  options_apply_of_adds q (Step.adds_of_declares h)

mutual

theorem Reads.apply {record : Json} {q : Query} {values : List (List Bool)}
    (h : Reads record q values) : ∀ {step : Step}, step.declares = true →
      Reads record (q.apply step) (attachAll values (step.item? q.options record).toList)
  | .keys role paths, _ => h.of_branches_eq (branches_addKeys role paths q)
  | .test link t, _ => by
      rw [Query.apply, addTest, Step.item?]
      cases t.clause q.options with
      | ok c => exact h.addItem link rfl
      | error e => exact h.of_branches_eq rfl
  | .group link negated program, hprogram => by
      have hinner := (Reads.empty record q.options).run hprogram
      rw [attachAll_nil] at hinner
      rw [Query.apply, Step.item?]
      exact h.addGroup hinner link negated

/-- A program keeps the query beside the values of its items, item by item. -/
theorem Reads.run {record : Json} {q : Query} {values : List (List Bool)}
    (h : Reads record q values) : ∀ {program : List Step}, Step.allDeclare program = true →
      Reads record (q.run program) (attachAll values (Step.items q.options record program))
  | [], _ => h
  | step :: rest, hprogram => by
      rw [Step.allDeclare, Bool.and_eq_true] at hprogram
      obtain ⟨hstep, hrest⟩ := hprogram
      have hreads := (h.apply hstep).run hrest
      rw [options_apply hstep] at hreads
      rw [Query.run, Step.items, attachAll, List.foldl_append]
      exact hreads

end

/-! ## What the query of a program says -/

theorem predicate_eq_ok {q : Query} {p : Predicate} (h : q.predicate = .ok p) :
    q.error = none ∧ Predicate.ofExpr q.expression q.options = .ok p := by
  rw [predicate] at h
  cases herror : q.error with
  | none =>
      rw [herror] at h
      exact ⟨rfl, h⟩
  | some e =>
      rw [herror] at h
      cases h

/-- The predicate puts the condition to records as it is, since that is in normal form. -/
theorem expression_of_predicate {q : Query} {p : Predicate} (h : q.predicate = .ok p) :
    p.expression = q.expression := by
  rw [Predicate.expression_of_ofExpr (predicate_eq_ok h).2, expression, Expr.normalize_normalize]

theorem matchesRecord_of_predicate {q : Query} {p : Predicate} (h : q.predicate = .ok p)
    (record : Json) :
    q.matchesRecord record = .ok ((q.rawExpression.value record).getD true) := by
  rw [matchesRecord, h, ← Expr.eval_normalize, ← expression, ← expression_of_predicate h]
  rfl

/-- **A query says what its program reads.** Whatever is declared, in whatever
order and nesting: if the condition is accepted, which it is only if no
declaration was wrong, then the query says of each record what the reading
of the program says, and yes if the program declares no condition. -/
theorem matchesRecord_run_eq_valueOf (options : Options) (program : List Step)
    (hprogram : Step.allDeclare program = true) (record : Json) (p : Predicate)
    (hp : (run (.empty options) program).predicate = .ok p) :
    (run (.empty options) program).matchesRecord record
      = .ok ((Step.valueOf options record program).getD true) := by
  have hreads := (Reads.empty record options).run hprogram
  rw [attachAll_nil] at hreads
  rw [matchesRecord_of_predicate hp, hreads.value_of_branchesOf]
  rfl

/-- Empty groups, declared with `or` or negated, move no test to another branch. -/
theorem matchesRecord_run_around_empty_groups :
    let program : List Step := [
      .group .or false [],
      .test .or (.truthy "done"),
      .group .or true [.group .and false [], .keys .sort ["due.day"]],
      .test .and (.compareBy "owner" " === " (.string "me")),
      .group .or true [.test .and (.truthy "done"), .test .or (.truthy "late")]]
    let record : Json := .object [("done", .bool true), ("owner", .string "you")]
    let p : Predicate := ⟨.any [
      .all [.clause (.truthy ⟨"done"⟩),
        .clause (.compare ⟨"owner"⟩ .strictEq (.string "me"))],
      .not (.any [.clause (.truthy ⟨"done"⟩), .clause (.truthy ⟨"late"⟩)])]⟩
    Step.allDeclare program = true
      ∧ (run (.empty {}) program).predicate = .ok p
      ∧ (run (.empty {}) program).matchesRecord record
        = .ok ((Step.valueOf {} record program).getD true)
      ∧ Step.valueOf {} record program = some false := by
  intro program record p
  have hprogram : Step.allDeclare program = true := rfl
  have hp : (run (.empty {}) program).predicate = .ok p := rfl
  exact ⟨hprogram, hp, matchesRecord_run_eq_valueOf {} program hprogram record p hp, rfl⟩

end Query

end RecordQuery
