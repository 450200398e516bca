import RecordQuery.Query.Program

/-!
# What declarations change

The effect of each declaration on the parts of a query, so that no proof
about a whole query has to look inside a declaration: none of them
changes the options, a key only touches the keys, a test is one item or
an error, and a group hands over its keys and its error (`joined`) and
then is one item or none (`addGroup_eq`).
-/

namespace RecordQuery

/-- The declaration takes nothing back from the query that it is made on, and does not read a
stored one in its place. What is done to the query of a group inside it does not matter. -/
def Step.adds : Step → Bool
  | keys _ _ | test _ _ | group _ _ _ => true
  | reset | reload _ => false

namespace Query

/-! ## Attaching an item -/

theorem map_attach {α β : Type} (f : α → β) (link : Link) (item : α) :
    ∀ branches : List (List α), (attach link item branches).map (List.map f)
      = attach link (f item) (branches.map (List.map f))
  | [] => rfl
  | [last] => by
      cases link with
      | and => simp [attach]
      | or => rfl
  | branch :: next :: rest => by
      have ih := map_attach f link item (next :: rest)
      simp only [attach, List.map_cons] at ih ⊢
      rw [ih]

/-- An item is attached to the last branch or starts a branch behind it. -/
theorem attach_concat {α : Type} (link : Link) (item : α) (last : List α) :
    ∀ branches : List (List α), attach link item (branches ++ [last])
      = if link = .and then branches ++ [last ++ [item]] else branches ++ [last] ++ [[item]]
  | [] => by cases link <;> rfl
  | [branch] => by cases link <;> rfl
  | branch :: next :: rest => by
      have ih := attach_concat link item last (next :: rest)
      simp only [List.cons_append, attach] at ih ⊢
      rw [ih]
      split <;> rfl

/-- Whatever the link, the item comes last. -/
theorem flatten_attach {α : Type} (link : Link) (item : α) (branches : List (List α)) :
    (attach link item branches).flatten = branches.flatten ++ [item] := by
  rcases List.eq_nil_or_concat branches with rfl | ⟨before, last, rfl⟩
  · rfl
  · rw [List.concat_eq_append, attach_concat]
    split <;> simp

/-- A branch was there before, or the item was put behind one that was, or behind nothing. -/
theorem mem_attach {α : Type} {link : Link} {item : α} {branch : List α}
    {branches : List (List α)} (h : branch ∈ attach link item branches) :
    branch ∈ branches
      ∨ ∃ before, (before = [] ∨ before ∈ branches) ∧ branch = before ++ [item] := by
  rcases List.eq_nil_or_concat branches with rfl | ⟨others, last, rfl⟩
  · exact Or.inr ⟨[], Or.inl rfl, List.mem_singleton.mp h⟩
  · rw [List.concat_eq_append] at h ⊢
    rw [attach_concat] at h
    split at h
    · rcases List.mem_append.mp h with hother | hlast
      · exact Or.inl (List.mem_append.mpr (Or.inl hother))
      · have hmem : last ∈ others ++ [last] := by simp
        exact Or.inr ⟨last, Or.inr hmem, List.mem_singleton.mp hlast⟩
    · rcases List.mem_append.mp h with hold | hnew
      · exact Or.inl hold
      · exact Or.inr ⟨[], Or.inl rfl, List.mem_singleton.mp hnew⟩

/-! ## Groups -/

/-- The query with the keys and the error of a group, whose condition is not in it yet. -/
def joined (q inner : Query) : Query :=
  { q with keys := q.keys.merge inner.keys, error := q.error.or inner.error }

/-- The condition of a group as the item that it becomes. -/
def groupItem (negated : Bool) (inner : Query) : Expr :=
  if negated then .not inner.rawExpression else inner.rawExpression

theorem addGroup_eq (q : Query) (link : Link) (negated : Bool) (inner : Query) :
    q.addGroup link negated inner
      = if inner.isEmpty then q.joined inner
        else (q.joined inner).addItem link (groupItem negated inner) :=
  rfl

/-! ## Options -/

theorem options_addKey (role : KeyRole) (q : Query) (path : String) :
    (q.addKey role path).options = q.options := by
  unfold addKey
  split <;> rfl

theorem options_addKeys (role : KeyRole) :
    ∀ (paths : List String) (q : Query), (q.addKeys role paths).options = q.options
  | [], _ => rfl
  | path :: rest, q =>
      (options_addKeys role rest (q.addKey role path)).trans (options_addKey role q path)

theorem options_addTest (q : Query) (link : Link) (test : Test) :
    (q.addTest link test).options = q.options := by
  unfold addTest
  split <;> rfl

theorem options_addGroup (q : Query) (link : Link) (negated : Bool) (inner : Query) :
    (q.addGroup link negated inner).options = q.options := by
  rw [addGroup_eq]
  split <;> rfl

theorem options_apply_of_adds (q : Query) {step : Step} (h : step.adds = true) :
    (q.apply step).options = q.options := by
  cases step with
  | keys role paths => exact options_addKeys role paths q
  | test link t => exact options_addTest q link t
  | group link negated program => exact options_addGroup q link negated _
  | reset | reload _ => cases h

theorem options_run_of_adds (q : Query) {program : List Step}
    (h : ∀ step ∈ program, step.adds = true) : (q.run program).options = q.options := by
  induction program generalizing q with
  | nil => rfl
  | cons step rest ih =>
      obtain ⟨hstep, hrest⟩ := List.forall_mem_cons.mp h
      rw [run, ih _ hrest, options_apply_of_adds q hstep]

/-! ## Keys leave the condition alone -/

theorem branches_addKey (role : KeyRole) (q : Query) (path : String) :
    (q.addKey role path).branches = q.branches := by
  unfold addKey
  split <;> rfl

theorem branches_addKeys (role : KeyRole) :
    ∀ (paths : List String) (q : Query), (q.addKeys role paths).branches = q.branches
  | [], _ => rfl
  | path :: rest, q =>
      (branches_addKeys role rest (q.addKey role path)).trans (branches_addKey role q path)

end Query

end RecordQuery
