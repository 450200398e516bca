import RecordQuery.Proofs.Expr.Regrouping
import RecordQuery.Proofs.Query.FirstError

/-!
# Groups that say nothing

A group of declarations that are all made with `and` says the same as the
declarations by themselves. A group that is made with `or` says the same as
its declarations by themselves if the first of them that adds an item is
made with `or` too, so that a new branch starts there
(`expression_of_idle_group`). The trees before normalization differ: a group
is one item that holds the disjunction of its branches. Taking that item
apart is a regrouping, and of the two kinds there is one for each link
(`regroups_attach_and`, `regroups_attach_or`).

What is left is to know the branches. A declaration that takes nothing back
attaches at most one item, which does not depend on the query but for its
options (`Step.added?`), so the branches of a program are the items of its
declarations attached one after the other (`branches_run`), to those of the
query or, in a group, to none.
-/

namespace RecordQuery

namespace Step

/-! ## What a declaration adds -/

/-- The link that a declaration is made with, if it is one that can add an item. -/
def link? : Step → Option Link
  | test link _ | group link _ _ => some link
  | keys _ _ | reset | reload _ => none

/-- The declaration made with another link. -/
def withLink (link : Link) : Step → Step
  | test _ t => test link t
  | group _ negated program => group link negated program
  | step => step

/-- The item that a declaration adds to a query with the options, if it adds one. -/
def added? (options : Options) : Step → Option (Link × Expr)
  | test link t =>
    match t.clause options with
    | .ok c => some (link, .clause c)
    | .error _ => none
  | group link negated program =>
    let inner := Query.run (.empty options) program
    if inner.isEmpty then none else some (link, Query.groupItem negated inner)
  | keys _ _ | reset | reload _ => none

/-- The error that a declaration raises on a query with the options. -/
def raised? (options : Options) (step : Step) : Option QueryError :=
  ((Query.empty options).apply step).error

/-- The program with the first of its declarations that adds an item made with `or`. -/
def orFirst (options : Options) : List Step → List Step
  | [] => []
  | step :: rest =>
    if (step.added? options).isSome then step.withLink .or :: rest
    else step :: orFirst options rest

variable {options : Options} {step : Step} {program : List Step}

theorem adds_of_link? {link : Link} (h : step.link? = some link) : step.adds = true := by
  cases step with
  | test _ _ | group _ _ _ => rfl
  | keys _ _ | reset | reload _ => cases h

theorem link_of_added? {item : Link × Expr} (h : step.added? options = some item) :
    step.link? = some item.1 := by
  cases step with
  | test link t =>
      rw [added?] at h
      split at h
      · rw [← Option.some.inj h]
        rfl
      · cases h
  | group link negated program =>
      rw [added?] at h
      split at h
      · cases h
      · rw [← Option.some.inj h]
        rfl
  | keys _ _ | reset | reload _ => cases h

theorem adds_withLink (link : Link) (step : Step) : (step.withLink link).adds = step.adds := by
  cases step <;> rfl

theorem added?_withLink (link : Link) (step : Step) :
    (step.withLink link).added? options = (step.added? options).map fun item => (link, item.2) := by
  cases step with
  | test _ t =>
      rw [withLink, added?, added?]
      cases t.clause options <;> rfl
  | group _ negated program =>
      rw [withLink, added?, added?]
      split <;> rfl
  | keys _ _ | reset | reload _ => rfl

theorem raised?_withLink (link : Link) (step : Step) :
    (step.withLink link).raised? options = step.raised? options := by
  cases step with
  | test _ t => exact (Query.error_addTest _ link t).trans (Query.error_addTest _ _ t).symm
  | group _ negated program =>
      exact (Query.error_addGroup _ link negated _).trans (Query.error_addGroup _ _ negated _).symm
  | keys _ _ | reset | reload _ => rfl

theorem adds_of_mem_orFirst (h : ∀ step ∈ program, step.adds = true) :
    ∀ step ∈ orFirst options program, step.adds = true := by
  induction program with
  | nil => exact h
  | cons step rest ih =>
      obtain ⟨hstep, hrest⟩ := List.forall_mem_cons.mp h
      rw [orFirst]
      split
      · exact List.forall_mem_cons.mpr ⟨(adds_withLink .or step).trans hstep, hrest⟩
      · exact List.forall_mem_cons.mpr ⟨hstep, ih hrest⟩

/-- Only the link of the first item changes. -/
theorem filterMap_added?_orFirst (options : Options) (program : List Step) :
    (orFirst options program).filterMap (added? options)
      = match program.filterMap (added? options) with
        | [] => []
        | item :: rest => (.or, item.2) :: rest := by
  induction program with
  | nil => rfl
  | cons step rest ih =>
      rw [orFirst]
      cases hadded : step.added? options with
      | none =>
          rw [if_neg (by simp), List.filterMap_cons_none hadded, List.filterMap_cons_none hadded, ih]
      | some item =>
          have hlinked : (step.withLink .or).added? options = some (.or, item.2) := by
            rw [added?_withLink, hadded]
            rfl
          rw [if_pos Option.isSome_some, List.filterMap_cons_some hlinked,
            List.filterMap_cons_some hadded]

theorem findSome?_raised?_orFirst (options : Options) (program : List Step) :
    (orFirst options program).findSome? (raised? options)
      = program.findSome? (raised? options) := by
  induction program with
  | nil => rfl
  | cons step rest ih =>
      rw [orFirst]
      split
      · rw [List.findSome?_cons, List.findSome?_cons, raised?_withLink]
      · rw [List.findSome?_cons, List.findSome?_cons, ih]

end Step

namespace Query

/-! ## What a program adds -/

variable {step : Step} {program : List Step}

theorem branches_apply (q : Query) (h : step.adds = true) :
    (q.apply step).branches = attachAll q.branches (step.added? q.options).toList := by
  cases step with
  | keys role paths => exact branches_addKeys role paths q
  | test link t =>
      rw [apply, addTest, Step.added?]
      cases t.clause q.options <;> rfl
  | group link negated program =>
      rw [apply, addGroup_eq, Step.added?]
      split <;> rfl
  | reset | reload _ => cases h

theorem error_apply_of_adds (q : Query) (h : step.adds = true) :
    (q.apply step).error = q.error.or (step.raised? q.options) := by
  cases step with
  | keys role paths =>
      have hraised := error_addKeys role paths (.empty q.options)
      exact (error_addKeys role paths q).trans (congrArg q.error.or hraised.symm)
  | test link t =>
      have hraised := error_addTest (.empty q.options) link t
      exact (error_addTest q link t).trans (congrArg q.error.or hraised.symm)
  | group link negated program =>
      have hraised := error_addGroup (.empty q.options) link negated (run (.empty q.options) program)
      exact (error_addGroup q link negated _).trans (congrArg q.error.or hraised.symm)
  | reset | reload _ => cases h

/-- A program attaches the items of its declarations one after the other. -/
theorem branches_run (q : Query) (h : ∀ step ∈ program, step.adds = true) :
    (q.run program).branches
      = attachAll q.branches (program.filterMap (Step.added? q.options)) := by
  induction program generalizing q with
  | nil => rfl
  | cons step rest ih =>
      obtain ⟨hstep, hrest⟩ := List.forall_mem_cons.mp h
      have hitems : (step :: rest).filterMap (Step.added? q.options)
          = (step.added? q.options).toList ++ rest.filterMap (Step.added? q.options) := by
        rw [List.filterMap_cons]
        cases step.added? q.options <;> rfl
      rw [run, ih _ hrest, options_apply_of_adds q hstep, branches_apply q hstep, hitems,
        attachAll, attachAll, attachAll, List.foldl_append]

/-- The error of a program is the first that a declaration raises, unless there was one before. -/
theorem error_run_of_adds (q : Query) (h : ∀ step ∈ program, step.adds = true) :
    (q.run program).error = q.error.or (program.findSome? (Step.raised? q.options)) := by
  induction program generalizing q with
  | nil => exact Option.or_none.symm
  | cons step rest ih =>
      obtain ⟨hstep, hrest⟩ := List.forall_mem_cons.mp h
      rw [run, ih _ hrest, options_apply_of_adds q hstep, error_apply_of_adds q hstep,
        Option.or_assoc, List.findSome?_cons]
      cases step.raised? q.options <;> rfl

/-! ## Attaching to branches that are there -/

theorem attach_or {α : Type} (item : α) (branches : List (List α)) :
    attach .or item branches = branches ++ [[item]] := by
  rcases List.eq_nil_or_concat branches with rfl | ⟨before, last, rfl⟩
  · rfl
  · rw [List.concat_eq_append, attach_concat, if_neg nofun]

/-- Items that are all attached with `and` come to the end of the last branch. -/
theorem attachAll_concat_of_and {α : Type} (before : List (List α)) :
    ∀ (last : List α) (items : List (Link × α)), (∀ item ∈ items, item.1 = .and) →
      attachAll (before ++ [last]) items = before ++ [last ++ items.map Prod.snd]
  | last, [], _ => by rw [List.map_nil, List.append_nil]; rfl
  | last, item :: rest, h => by
      obtain ⟨hitem, hrest⟩ := List.forall_mem_cons.mp h
      have hattach : attach item.1 item.2 (before ++ [last]) = before ++ [last ++ [item.2]] := by
        rw [attach_concat, if_pos hitem]
      have ih := attachAll_concat_of_and before (last ++ [item.2]) rest hrest
      rw [attachAll] at ih ⊢
      rw [List.foldl_cons, hattach, ih, List.append_assoc, List.singleton_append, List.map_cons]

theorem attach_ne_nil {α : Type} (link : Link) (item : α) (branches : List (List α)) :
    attach link item branches ≠ [] := by
  intro hnil
  have hitems := flatten_attach link item branches
  rw [hnil] at hitems
  exact List.append_ne_nil_of_right_ne_nil _ (List.cons_ne_nil item []) hitems.symm

theorem attachAll_ne_nil {α : Type} {items : List (Link × α)} (h : items ≠ [])
    (branches : List (List α)) : attachAll branches items ≠ [] := by
  obtain ⟨before, item, rfl⟩ := (List.eq_nil_or_concat items).resolve_left h
  rw [List.concat_eq_append, attachAll, List.foldl_append]
  exact attach_ne_nil item.1 item.2 _

/-- Branches before the last one stay as they are. -/
theorem attachAll_append {α : Type} (before : List (List α)) (items : List (Link × α)) :
    ∀ {branches : List (List α)}, branches ≠ [] →
      attachAll (before ++ branches) items = before ++ attachAll branches items := by
  induction items with
  | nil => exact fun _ => rfl
  | cons item rest ih =>
      intro branches hne
      obtain ⟨others, last, rfl⟩ := (List.eq_nil_or_concat branches).resolve_left hne
      have hattach : attach item.1 item.2 (before ++ (others ++ [last]))
          = before ++ attach item.1 item.2 (others ++ [last]) := by
        rw [← List.append_assoc, attach_concat, attach_concat]
        split <;> simp only [List.append_assoc]
      rw [List.concat_eq_append, attachAll, List.foldl_cons, hattach]
      exact ih (attach_ne_nil item.1 item.2 _)

/-- An item attached with `or` starts branches behind those that are there, the same as the
items make by themselves. -/
theorem attachAll_or_cons {α : Type} (branches : List (List α)) (item : Link × α)
    (rest : List (Link × α)) :
    attachAll branches ((.or, item.2) :: rest) = branches ++ attachAll [] (item :: rest) := by
  have hattach : attachAll branches ((.or, item.2) :: rest)
      = attachAll (branches ++ [[item.2]]) rest := by
    rw [attachAll, List.foldl_cons, attach_or]
    rfl
  rw [hattach, attachAll_append branches rest (List.cons_ne_nil _ _)]
  rfl

/-! ## A group taken apart -/

/-- The condition of branches. -/
def conditionOf (branches : List (List Expr)) : Expr :=
  .any (branches.map .all)

theorem conditionOf_append (before after : List (List Expr)) :
    conditionOf (before ++ after) = .any (before.map .all ++ after.map .all) := by
  rw [conditionOf, List.map_append]

open RecordQuery.Expr (Regroups)

/-- A branch attached to the last one as a group is the members of that branch attached to it. -/
theorem regroups_attach_and (branches : List (List Expr)) {items : List (Link × Expr)}
    (hne : items ≠ []) (hand : ∀ item ∈ items, item.1 = .and) :
    Regroups (conditionOf (attach .and (conditionOf (attachAll [] items)) branches))
      (conditionOf (attachAll branches items)) := by
  have hbranch : attachAll [] items = [items.map Prod.snd] := by
    obtain ⟨item, rest, rfl⟩ := List.exists_cons_of_ne_nil hne
    exact attachAll_concat_of_and [] [item.2] rest (List.forall_mem_cons.mp hand).2
  let members : List Expr := items.map Prod.snd
  rcases List.eq_nil_or_concat branches with rfl | ⟨before, last, rfl⟩
  · rw [hbranch]
    have houter : Regroups (.any [.all [.any [.all members]]]) (.all [.any [.all members]]) :=
      .single .any _
    exact houter.trans (.single .all _)
  · rw [List.concat_eq_append, attachAll_concat_of_and before last items hand, attach_concat,
      if_pos rfl, hbranch, conditionOf_append, conditionOf_append]
    have hsingle : Regroups (.all (last ++ [.any [.all members]])) (.all (last ++ [.all members])) :=
      .member .all last [] (.single .any _)
    have hmerge : Regroups (.all (last ++ [.all members])) (.all (last ++ members ++ [])) :=
      .merge .all last members []
    rw [List.append_nil] at hmerge
    exact .member .any (before.map .all) [] (hsingle.trans hmerge)

/-- Branches attached as a group that starts a branch are those branches. -/
theorem regroups_attach_or (branches inner : List (List Expr)) :
    Regroups (conditionOf (attach .or (conditionOf inner) branches))
      (conditionOf (branches ++ inner)) := by
  rw [attach_or, conditionOf_append, conditionOf_append]
  have hsingle : Regroups (.any (branches.map .all ++ [.all [conditionOf inner]]))
      (.any (branches.map .all ++ [conditionOf inner])) :=
    .member .any (branches.map .all) [] (.single .all _)
  have hmerge : Regroups (.any (branches.map .all ++ [conditionOf inner]))
      (.any (branches.map .all ++ inner.map .all ++ [])) :=
    .merge .any (branches.map .all) (inner.map .all) []
  rw [List.append_nil] at hmerge
  exact hsingle.trans hmerge

/-! ## The condition with a group and without it -/

theorem branches_addGroup (q : Query) (link : Link) (inner : Query) :
    (q.addGroup link false inner).branches
      = if inner.branches = [] then q.branches
        else attach link (conditionOf inner.branches) q.branches := by
  rw [addGroup_eq, isEmpty]
  by_cases hnone : inner.branches = []
  · rw [if_pos hnone, if_pos (List.isEmpty_iff.mpr hnone)]
    rfl
  · rw [if_neg hnone, if_neg (by rwa [List.isEmpty_iff])]
    rfl

theorem expression_congr {q other : Query}
    (h : Regroups (conditionOf q.branches) (conditionOf other.branches)) :
    q.expression = other.expression :=
  h.normalize_eq

theorem predicate_congr {q other : Query} (herror : q.error = other.error)
    (hoptions : q.options = other.options) (hexpression : q.expression = other.expression) :
    q.predicate = other.predicate := by
  rw [predicate, predicate, herror, hoptions, hexpression]

/-- A group raises what its declarations raise. -/
theorem error_apply_group (q : Query) (link : Link) (h : ∀ step ∈ program, step.adds = true) :
    (q.apply (.group link false program)).error
      = q.error.or (program.findSome? (Step.raised? q.options)) := by
  have hinner : (run (.empty q.options) program).error
      = program.findSome? (Step.raised? q.options) := error_run_of_adds (.empty q.options) h
  rw [apply, error_addGroup, hinner]

theorem expression_group_and (q : Query) (h : ∀ step ∈ program, step.link? = some .and) :
    (q.apply (.group .and false program)).expression = (q.run program).expression := by
  have hadds : ∀ step ∈ program, step.adds = true := fun step hstep =>
    Step.adds_of_link? (h step hstep)
  have hand : ∀ item ∈ program.filterMap (Step.added? q.options), item.1 = .and := by
    intro item hitem
    obtain ⟨step, hstep, hadded⟩ := List.mem_filterMap.mp hitem
    have hlink := Step.link_of_added? hadded
    rw [h step hstep] at hlink
    exact (Option.some.inj hlink).symm
  have hinner : (run (.empty q.options) program).branches
      = attachAll [] (program.filterMap (Step.added? q.options)) :=
    branches_run (.empty q.options) hadds
  refine expression_congr ?_
  rw [apply, branches_addGroup, hinner, branches_run q hadds]
  by_cases hnone : program.filterMap (Step.added? q.options) = []
  · -- Nothing is added on either side, and no item may stand for the empty group.
    rw [hnone]
    exact .refl _
  · rw [if_neg (attachAll_ne_nil hnone [])]
    exact regroups_attach_and q.branches hnone hand

theorem expression_group_or (q : Query) (h : ∀ step ∈ program, step.adds = true) :
    (q.apply (.group .or false program)).expression
      = (q.run (Step.orFirst q.options program)).expression := by
  have hinner : (run (.empty q.options) program).branches
      = attachAll [] (program.filterMap (Step.added? q.options)) :=
    branches_run (.empty q.options) h
  refine expression_congr ?_
  rw [apply, branches_addGroup, hinner, branches_run q (Step.adds_of_mem_orFirst h),
    Step.filterMap_added?_orFirst]
  cases hitems : program.filterMap (Step.added? q.options) with
  | nil => exact .refl _
  | cons item rest =>
      rw [if_neg (attachAll_ne_nil (List.cons_ne_nil item rest) []), attachAll_or_cons]
      exact regroups_attach_or q.branches _

/-- **Idle groups leave no trace in the condition.** Declarations that are all made with `and` lead
to the same condition, and to the same predicate or error, in a group made with `and` and by
themselves, whatever query they are made on. The declarations of a group made with `or` lead
to the same by themselves if the first of them that adds an item is made with `or`. -/
theorem expression_of_idle_group (q : Query) :
    (∀ program : List Step, (∀ step ∈ program, step.link? = some .and) →
      (q.apply (.group .and false program)).expression = (q.run program).expression
        ∧ (q.apply (.group .and false program)).predicate = (q.run program).predicate)
    ∧ ∀ program : List Step, (∀ step ∈ program, step.adds = true) →
      (q.apply (.group .or false program)).expression
          = (q.run (Step.orFirst q.options program)).expression
        ∧ (q.apply (.group .or false program)).predicate
          = (q.run (Step.orFirst q.options program)).predicate := by
  constructor
  · intro program h
    have hadds : ∀ step ∈ program, step.adds = true := fun step hstep =>
      Step.adds_of_link? (h step hstep)
    have hexpression := expression_group_and q h
    refine ⟨hexpression, predicate_congr ?_ ?_ hexpression⟩
    · rw [error_apply_group q .and hadds, error_run_of_adds q hadds]
    · rw [options_apply_of_adds q rfl, options_run_of_adds q hadds]
  · intro program h
    have hexpression := expression_group_or q h
    have horFirst : ∀ step ∈ Step.orFirst q.options program, step.adds = true :=
      Step.adds_of_mem_orFirst h
    refine ⟨hexpression, predicate_congr ?_ ?_ hexpression⟩
    · rw [error_apply_group q .or h, error_run_of_adds q horFirst, Step.findSome?_raised?_orFirst]
    · rw [options_apply_of_adds q rfl, options_run_of_adds q horFirst]

/-- A negated group that begins anew stands among the declarations of one group; keys and the
negation of nothing stand before the first item of the other. -/
theorem expression_of_idle_group_around_others :
    let x (name : String) : Expr := .clause (.truthy ⟨name⟩)
    let q : Query := run (.empty {}) [.test .and (.truthy "a"), .test .or (.truthy "b")]
    let joined : List Step := [
      .test .and (.truthy "c"),
      .group .and true [.test .and (.truthy "d"), .reset, .test .or (.truthy "e")],
      .group .and false [.test .and (.truthy "f"), .test .or (.truthy "g")]]
    let mixed : List Step := [
      .keys .select ["id"], .group .and true [],
      .test .and (.truthy "c"), .test .and (.truthy "d"), .test .or (.truthy "e")]
    (∀ step ∈ joined, step.link? = some .and)
      ∧ (q.apply (.group .and false joined)).expression = (q.run joined).expression
      ∧ (q.apply (.group .and false joined)).predicate = (q.run joined).predicate
      ∧ (q.run joined).expression
        = .any [x "a", .all [x "b", x "c", .not (x "e"), .any [x "f", x "g"]]]
      ∧ (∀ step ∈ mixed, step.adds = true)
      ∧ Step.orFirst q.options mixed = [
        .keys .select ["id"], .group .and true [],
        .test .or (.truthy "c"), .test .and (.truthy "d"), .test .or (.truthy "e")]
      ∧ (q.apply (.group .or false mixed)).expression
        = (q.run (Step.orFirst q.options mixed)).expression
      ∧ (q.run (Step.orFirst q.options mixed)).expression
        = .any [x "a", x "b", .all [x "c", x "d"], x "e"] := by
  intro x q joined mixed
  have hjoined : ∀ step ∈ joined, step.link? = some .and := by simp [joined, Step.link?]
  have hmixed : ∀ step ∈ mixed, step.adds = true := by simp [mixed, Step.adds]
  have hflat : (q.run joined).expression
      = .any [x "a", .all [x "b", x "c", .not (x "e"), .any [x "f", x "g"]]] := by rfl
  have horFirst : Step.orFirst q.options mixed = [
      .keys .select ["id"], .group .and true [],
      .test .or (.truthy "c"), .test .and (.truthy "d"), .test .or (.truthy "e")] := by rfl
  have hbranched : (q.run (Step.orFirst q.options mixed)).expression
      = .any [x "a", x "b", .all [x "c", x "d"], x "e"] := by
    rw [horFirst]
    rfl
  obtain ⟨hand, hor⟩ := expression_of_idle_group q
  obtain ⟨hexpression, hpredicate⟩ := hand joined hjoined
  exact ⟨hjoined, hexpression, hpredicate, hflat, hmixed, horFirst, (hor mixed hmixed).1,
    hbranched⟩

end Query

end RecordQuery
