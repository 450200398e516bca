import RecordQuery.Proofs.Arrangement.Distribution
import RecordQuery.Proofs.Query.Reading

/-!
# Keys in the order of the program

The keys of a query, read off its program: what the declarations name in a
role and is accepted, in their order, those of a group where it is declared
(`Step.allDeclaredKeys`). The query that the program builds has these keys
without later repetitions (`keys_run_eq_eraseDups`).

The query of a group has lost the repetitions inside the group before its keys
are merged into those around it, key by key. That decides nothing
(`Keys.foldl_addUnique_eraseDups`): a key is only added where it is new, so the
second one of a group comes too late anyway. The keys are taken over whether
or not the group has a condition.
-/

namespace RecordQuery

namespace Step

mutual

/-- The keys that a declaration names in a role, those of a group in the order of its program.
What is not accepted is no key. -/
def declaredKeys (options : Options) (role : KeyRole) : Step → List FieldPath
  | keys declared paths =>
    if declared = role then paths.filterMap fun path => (options.accept path).toOption else []
  | group _ _ program => allDeclaredKeys options role program
  | test _ _ | reset | reload _ => []

def allDeclaredKeys (options : Options) (role : KeyRole) : List Step → List FieldPath
  | [] => []
  | step :: rest => step.declaredKeys options role ++ allDeclaredKeys options role rest

end

end Step

/-! ## Adding without repetition -/

namespace Keys

/-- Added one by one to nothing, keys lose their later repetitions. -/
theorem foldl_addUnique_nil (added : List FieldPath) :
    added.foldl addUnique [] = added.eraseDups := by
  induction added using List.reverseRecOn with
  | nil => rfl
  | append_singleton added path ih =>
      rw [List.foldl_concat, ih, eraseDups_concat, addUnique]
      simp only [List.contains_iff_mem, List.mem_eraseDups]

/-- What is added one by one may have lost its later repetitions before. -/
theorem foldl_addUnique_eraseDups (added paths : List FieldPath) :
    added.eraseDups.foldl addUnique paths = added.foldl addUnique paths := by
  induction added using List.reverseRecOn with
  | nil => rfl
  | append_singleton added path ih =>
      rw [List.foldl_concat, eraseDups_concat]
      split
      · rename_i hold
        have hthere : path ∈ added.foldl addUnique paths :=
          mem_foldl_addUnique.mpr (Or.inr hold)
        rw [ih, addUnique, if_pos (List.contains_iff_mem.mpr hthere)]
      · rw [List.foldl_concat, ih]

theorem get_add (keys : Keys) (declared role : KeyRole) (path : FieldPath) :
    (keys.add declared path).get role
      = if declared = role then addUnique (keys.get role) path else keys.get role := by
  split
  · rename_i hrole
    rw [hrole, add, get_set_self]
  · rename_i hrole
    exact get_set_of_ne keys (Ne.symm hrole) _

end Keys

namespace Query

/-! ## Each declaration adds its keys -/

theorem get_keys_addKey (declared role : KeyRole) (q : Query) (path : String) :
    (q.addKey declared path).keys.get role
      = ((Step.keys declared [path]).declaredKeys q.options role).foldl Keys.addUnique
          (q.keys.get role) := by
  rw [Step.declaredKeys, addKey, List.filterMap_cons, List.filterMap_nil]
  cases q.options.accept path with
  | ok key =>
      dsimp only [Except.toOption]
      rw [Keys.get_add]
      split <;> rfl
  | error e => exact (congrArg (List.foldl Keys.addUnique (q.keys.get role)) (ite_self [])).symm

theorem get_keys_addKeys (declared role : KeyRole) : ∀ (paths : List String) (q : Query),
    (q.addKeys declared paths).keys.get role
      = ((Step.keys declared paths).declaredKeys q.options role).foldl Keys.addUnique
          (q.keys.get role)
  | [], q => by
      rw [Step.declaredKeys]
      split <;> rfl
  | path :: rest, q => by
      have hsplit : (Step.keys declared (path :: rest)).declaredKeys q.options role
          = (Step.keys declared [path]).declaredKeys q.options role
            ++ (Step.keys declared rest).declaredKeys q.options role := by
        simp only [Step.declaredKeys]
        split
        · rw [← List.filterMap_append, List.singleton_append]
        · rfl
      have hrest := get_keys_addKeys declared role rest (q.addKey declared path)
      rw [options_addKey, get_keys_addKey, ← List.foldl_append, ← hsplit] at hrest
      exact hrest

theorem keys_addTest (q : Query) (link : Link) (t : Test) : (q.addTest link t).keys = q.keys := by
  unfold addTest
  split <;> rfl

/-- The keys of a group are taken over whether or not it adds an item. -/
theorem keys_addGroup (q : Query) (link : Link) (negated : Bool) (inner : Query) :
    (q.addGroup link negated inner).keys = q.keys.merge inner.keys := by
  rw [addGroup_eq]
  split <;> rfl

theorem foldl_addUnique_empty (options : Options) (role : KeyRole) (added : List FieldPath) :
    added.foldl Keys.addUnique ((empty options).keys.get role) = added.eraseDups := by
  have hempty : (empty options).keys.get role = [] := by cases role <;> rfl
  rw [hempty, Keys.foldl_addUnique_nil]

mutual

theorem get_keys_apply {q : Query} (role : KeyRole) : ∀ {step : Step}, step.declares = true →
    (q.apply step).keys.get role
      = (step.declaredKeys q.options role).foldl Keys.addUnique (q.keys.get role)
  | .keys declared paths, _ => get_keys_addKeys declared role paths q
  | .test link t, _ => by
      rw [Query.apply, keys_addTest]
      rfl
  | .group link negated program, hprogram => by
      have hinner : (run (.empty q.options) program).keys.get role
          = (Step.allDeclaredKeys q.options role program).eraseDups := by
        rw [get_keys_run role hprogram, foldl_addUnique_empty]
        rfl
      rw [Query.apply, keys_addGroup, Keys.get_merge, hinner, Keys.foldl_addUnique_eraseDups,
        Step.declaredKeys]

/-- A program adds the keys that it declares, in its order. -/
theorem get_keys_run {q : Query} (role : KeyRole) : ∀ {program : List Step},
    Step.allDeclare program = true →
      (q.run program).keys.get role
        = (Step.allDeclaredKeys q.options role program).foldl Keys.addUnique (q.keys.get role)
  | [], _ => rfl
  | step :: rest, hprogram => by
      rw [Step.allDeclare, Bool.and_eq_true] at hprogram
      obtain ⟨hstep, hrest⟩ := hprogram
      rw [Query.run, get_keys_run role hrest, options_apply hstep, get_keys_apply role hstep,
        Step.allDeclaredKeys, List.foldl_append]

end

/-- **Keys come in the order of the program.** Whatever is declared between them, and in whatever
groups they are declared, with a condition or without one: in each role the query has the
accepted keys of the program in their order, each where it is first declared. -/
theorem keys_run_eq_eraseDups (options : Options) {program : List Step}
    (hprogram : Step.allDeclare program = true) (role : KeyRole) :
    (run (.empty options) program).keys.get role
      = (Step.allDeclaredKeys options role program).eraseDups := by
  rw [get_keys_run role hprogram, foldl_addUnique_empty]
  rfl

/-- A group without a condition brings its keys, a key that is refused is left out though others of
its declaration are not, and the keys behind the refused test are still added. -/
theorem keys_run_eq_eraseDups_across_groups :
    let program : List Step := [
      .keys .sort ["due", "id"],
      .group .or true [
        .keys .sort ["id", "", "owner"], .keys .group ["kind"],
        .group .and false [.keys .sort ["size", "owner"]]],
      .test .and (.compareBy "owner" "=>" .null),
      .keys .select ["id"],
      .group .and false [
        .keys .group ["owner", "kind"], .test .or (.truthy "open"), .keys .sort ["due", "name"]],
      .keys .sort ["size", "kind"]]
    let q : Query := run (.empty {}) program
    Step.allDeclare program = true
      ∧ q.keys.get .select = (Step.allDeclaredKeys {} .select program).eraseDups
      ∧ q.keys.get .sort = (Step.allDeclaredKeys {} .sort program).eraseDups
      ∧ q.keys.get .group = (Step.allDeclaredKeys {} .group program).eraseDups
      ∧ q.keys = {
        select := [⟨"id"⟩]
        sort := [⟨"due"⟩, ⟨"id"⟩, ⟨"owner"⟩, ⟨"size"⟩, ⟨"name"⟩, ⟨"kind"⟩]
        group := [⟨"kind"⟩, ⟨"owner"⟩] } := by
  intro program q
  have hprogram : Step.allDeclare program = true := rfl
  exact ⟨hprogram, keys_run_eq_eraseDups {} hprogram .select,
    keys_run_eq_eraseDups {} hprogram .sort, keys_run_eq_eraseDups {} hprogram .group, by decide⟩

end Query

end RecordQuery
