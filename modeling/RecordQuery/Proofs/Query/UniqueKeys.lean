import RecordQuery.Proofs.Query.SpecRoundTrip
import RecordQuery.Proofs.Query.StoredSpec
import RecordQuery.Proofs.Query.Runs
import RecordQuery.Proofs.Arrangement.StableSort

/-!
# Keys without repetition

A key that is declared again is not added again, so no declaration makes a
key list with a repetition out of one without (`Keys.IsUnique`), and neither
does storing a query and reading it again. Only a spec brings repetitions
in, since its key lists are taken as they are: they are those that the same
keys declared one by one lead to exactly if they have none.

A repetition in the sort keys decides nothing (`compareByKeys_foldl_addUnique`).
One in the select keys can undo what a key between the two has done, and
one in the group keys is a level of buckets more.
-/

namespace RecordQuery

namespace Keys

/-! ## Adding what is not there -/

theorem nodup_addUnique {paths : List FieldPath} (h : paths.Nodup) (path : FieldPath) :
    (addUnique paths path).Nodup := by
  unfold addUnique
  split
  · exact h
  · rename_i hnew
    have hnot : path ∉ paths := fun hmem => hnew (List.contains_iff_mem.mpr hmem)
    exact List.nodup_append.mpr ⟨h, List.pairwise_singleton _ path, fun a ha b hb heq =>
      hnot (List.mem_singleton.mp hb ▸ heq ▸ ha)⟩

theorem nodup_foldl_addUnique : ∀ (added : List FieldPath) {paths : List FieldPath},
    paths.Nodup → (added.foldl addUnique paths).Nodup
  | [], _, h => h
  | path :: rest, _, h => nodup_foldl_addUnique rest (nodup_addUnique h path)

theorem foldl_addUnique_of_nodup : ∀ {added paths : List FieldPath},
    (paths ++ added).Nodup → added.foldl addUnique paths = paths ++ added
  | [], paths, _ => (List.append_nil paths).symm
  | path :: rest, paths, h => by
      have hnew : path ∉ paths := fun hmem =>
        (List.nodup_append.mp h).2.2 path hmem path List.mem_cons_self rfl
      have hadd : addUnique paths path = paths ++ [path] := by
        rw [addUnique, if_neg (fun hcontains => hnew (List.contains_iff_mem.mp hcontains))]
      rw [List.append_cons] at h ⊢
      rw [List.foldl_cons, hadd, foldl_addUnique_of_nodup h]

/-- Declared one by one, keys are as they are listed exactly if none is repeated. -/
theorem foldl_addUnique_nil_eq_iff {added : List FieldPath} :
    added.foldl addUnique [] = added ↔ added.Nodup := by
  constructor
  · intro h
    rw [← h]
    exact nodup_foldl_addUnique added List.nodup_nil
  · intro h
    exact foldl_addUnique_of_nodup h

/-! ## Key lists without repetition -/

/-- No key is repeated in one role. -/
def IsUnique (keys : Keys) : Prop :=
  ∀ role, (keys.get role).Nodup

theorem isUnique_empty : IsUnique {} := by
  intro role
  cases role <;> exact List.nodup_nil

theorem IsUnique.add {keys : Keys} (h : keys.IsUnique) (role : KeyRole) (path : FieldPath) :
    (keys.add role path).IsUnique := by
  intro other
  by_cases hrole : other = role
  · subst hrole
    rw [Keys.add, get_set_self]
    exact nodup_addUnique (h other) path
  · rw [Keys.add, get_set_of_ne keys hrole]
    exact h other

/-- What is merged in may have repetitions. -/
theorem IsUnique.merge {keys : Keys} (h : keys.IsUnique) (part : Keys) :
    (keys.merge part).IsUnique := by
  intro role
  rw [get_merge]
  exact nodup_foldl_addUnique (part.get role) (h role)

theorem ext_get {keys other : Keys} (h : ∀ role, keys.get role = other.get role) :
    keys = other := by
  cases keys
  cases other
  exact (Keys.mk.injEq ..).mpr ⟨h .select, h .sort, h .group⟩

theorem merge_empty_eq_iff {keys : Keys} : Keys.merge {} keys = keys ↔ keys.IsUnique := by
  have hrole : ∀ role, (Keys.merge {} keys).get role = (keys.get role).foldl addUnique [] := by
    intro role
    rw [get_merge]
    cases role <;> rfl
  constructor
  · intro h role
    rw [← foldl_addUnique_nil_eq_iff, ← hrole, h]
  · intro h
    refine ext_get fun role => ?_
    rw [hrole, foldl_addUnique_nil_eq_iff.mpr (h role)]

end Keys

/-! ## Repeated sort keys -/

theorem compareByKeys_append (before after : List FieldPath) (a b : Json) :
    compareByKeys (before ++ after) a b
      = (compareByKeys before a b).then (compareByKeys after a b) := by
  induction before with
  | nil => rfl
  | cons key rest ih => rw [List.cons_append, compareByKeys, compareByKeys, ih, Ordering.then_assoc]

/-- A key decides nothing behind itself. -/
theorem compareByKeys_append_of_mem {before : List FieldPath} {key : FieldPath}
    (h : key ∈ before) (after : List FieldPath) (a b : Json) :
    compareByKeys (before ++ key :: after) a b = compareByKeys (before ++ after) a b := by
  rw [compareByKeys_append, compareByKeys_append]
  cases hbefore : compareByKeys before a b with
  | lt | gt => rfl
  | eq =>
      have hkey := compareByKeys_eq_eq.mp hbefore key h
      rw [compareByKeys, hkey]
      rfl

theorem compareByKeys_foldl_addUnique (a b : Json) : ∀ added paths : List FieldPath,
    compareByKeys (added.foldl Keys.addUnique paths) a b = compareByKeys (paths ++ added) a b
  | [], paths => by rw [List.foldl_nil, List.append_nil]
  | key :: rest, paths => by
      rw [List.foldl_cons, compareByKeys_foldl_addUnique a b rest, Keys.addUnique]
      split
      · rename_i hkey
        exact (compareByKeys_append_of_mem (List.contains_iff_mem.mp hkey) rest a b).symm
      · rw [List.append_assoc, List.singleton_append]

theorem sortRecords_foldl_addUnique (keys : List FieldPath) :
    sortRecords (keys.foldl Keys.addUnique []) = sortRecords keys := by
  funext records
  have hcompare : ∀ a b,
      compareByKeys (keys.foldl Keys.addUnique []) a b = compareByKeys keys a b :=
    fun a b => compareByKeys_foldl_addUnique a b keys []
  rw [sortRecords, sortRecords]
  simp only [hcompare]

namespace Query

/-! ## Keys of queries -/

theorem isUnique_addKey {q : Query} (h : q.keys.IsUnique) (role : KeyRole) (path : String) :
    (q.addKey role path).keys.IsUnique := by
  unfold addKey
  split
  · exact h.add role _
  · exact h

theorem isUnique_addKeys (role : KeyRole) : ∀ (paths : List String) {q : Query},
    q.keys.IsUnique → (q.addKeys role paths).keys.IsUnique
  | [], _, h => h
  | path :: rest, _, h => isUnique_addKeys role rest (isUnique_addKey h role path)

theorem isUnique_addTest {q : Query} (h : q.keys.IsUnique) (link : Link) (t : Test) :
    (q.addTest link t).keys.IsUnique := by
  unfold addTest
  split <;> exact h

/-- A group may be any query, also one whose keys are repeated. -/
theorem isUnique_addGroup {q : Query} (h : q.keys.IsUnique) (link : Link) (negated : Bool)
    (inner : Query) : (q.addGroup link negated inner).keys.IsUnique := by
  rw [addGroup_eq]
  split <;> exact h.merge inner.keys

/-- A query that was stored has the keys that it had. -/
theorem isUnique_reload {q : Query} (h : q.keys.IsUnique) (options : Options) :
    ((q.reload options).getD q).keys.IsUnique := by
  rw [reload, Spec.ofJson?_toJson]
  exact h

theorem isUnique_apply {q : Query} (h : q.keys.IsUnique) : ∀ step : Step,
    (q.apply step).keys.IsUnique
  | .keys role paths => isUnique_addKeys role paths h
  | .test link t => isUnique_addTest h link t
  | .group link negated program => isUnique_addGroup h link negated (run (.empty q.options) program)
  | .reset => Keys.isUnique_empty
  | .reload options => isUnique_reload h (options.getD q.options)

theorem isUnique_run : ∀ (program : List Step) {q : Query},
    q.keys.IsUnique → (q.run program).keys.IsUnique
  | [], _, h => h
  | step :: rest, _, h => isUnique_run rest (isUnique_apply h step)

/-! ## The keys of a spec -/

/-- The query with the keys of a spec declared one by one. -/
def declareKeys (q : Query) (keys : Keys) : Query :=
  ((q.addKeys .select (keys.select.map FieldPath.text)).addKeys .sort
    (keys.sort.map FieldPath.text)).addKeys .group (keys.group.map FieldPath.text)

theorem addKeys_of_accepts (role : KeyRole) : ∀ {paths : List FieldPath} (q : Query),
    (∀ path ∈ paths, q.options.Accepts path) →
      q.addKeys role (paths.map FieldPath.text)
        = { q with keys := q.keys.set role (paths.foldl Keys.addUnique (q.keys.get role)) }
  | [], q, _ => by
      have hkeys : q.keys.set role (q.keys.get role) = q.keys := by cases role <;> rfl
      rw [List.foldl_nil, hkeys]
      rfl
  | path :: rest, q, h => by
      obtain ⟨hpath, hrest⟩ := List.forall_mem_cons.mp h
      have hadd : q.addKey role path.text = { q with keys := q.keys.add role path } := by
        rw [addKey, hpath]
      have hset : ∀ paths, (q.keys.add role path).set role paths = q.keys.set role paths := by
        cases role <;> exact fun _ => rfl
      have hstep : q.addKeys role ((path :: rest).map FieldPath.text)
          = (q.addKey role path.text).addKeys role (rest.map FieldPath.text) := rfl
      rw [hstep, hadd, addKeys_of_accepts role { q with keys := q.keys.add role path } hrest]
      dsimp only
      rw [hset, Keys.add, Keys.get_set_self, List.foldl_cons]

/-- Keys that are accepted are merged into those that are there. -/
theorem declareKeys_of_accepts {q : Query} {keys : Keys}
    (h : ∀ path ∈ keys.all, q.options.Accepts path) :
    q.declareKeys keys = { q with keys := q.keys.merge keys } := by
  have hrole : ∀ role, ∀ path ∈ keys.get role, q.options.Accepts path :=
    fun role path hpath => h path (Keys.mem_all.mpr ⟨role, hpath⟩)
  let selected : Query :=
    { q with keys := q.keys.set .select (keys.select.foldl Keys.addUnique q.keys.select) }
  let sorted : Query :=
    { selected with
      keys := selected.keys.set .sort (keys.sort.foldl Keys.addUnique q.keys.sort) }
  have hselected : q.addKeys .select (keys.select.map FieldPath.text) = selected :=
    addKeys_of_accepts .select q (hrole .select)
  have hsorted : selected.addKeys .sort (keys.sort.map FieldPath.text) = sorted :=
    addKeys_of_accepts .sort selected (hrole .sort)
  rw [declareKeys, hselected, hsorted]
  exact addKeys_of_accepts .group sorted (hrole .group)

theorem accepts_of_error_ofSpec {spec : Spec} {options : Options}
    (h : (ofSpec spec options).error = none) :
    (∀ path ∈ spec.filter.paths, options.Accepts path)
      ∧ ∀ path ∈ spec.keys.all, options.Accepts path := by
  have hpaths : firstPathError options spec.paths = none := h
  rw [firstPathError_eq_none, Spec.paths, List.forall_mem_append] at hpaths
  exact hpaths

theorem keys_ofSpec_eq_declared {spec : Spec} {options : Options}
    (h : (ofSpec spec options).error = none) :
    ((empty options).declareKeys spec.keys).keys = (ofSpec spec options).keys
      ↔ spec.keys.IsUnique := by
  rw [declareKeys_of_accepts (accepts_of_error_ofSpec h).2]
  exact Keys.merge_empty_eq_iff

/-- The spec without its keys makes a query with the same predicate. -/
theorem predicate_ofSpec_without_keys {spec : Spec} {options : Options}
    (h : (ofSpec spec options).error = none) :
    (ofSpec { filter := spec.filter } options).error = none
      ∧ (ofSpec { filter := spec.filter } options).predicate = (ofSpec spec options).predicate := by
  have herror : (ofSpec { filter := spec.filter } options).error = none := by
    have hpaths : ∀ path ∈ (Spec.paths { filter := spec.filter }), options.Accepts path := by
      intro path hpath
      rw [Spec.paths, List.mem_append] at hpath
      rcases hpath with hfilter | hkey
      · exact (accepts_of_error_ofSpec h).1 path hfilter
      · cases hkey
    exact firstPathError_eq_none.mpr hpaths
  exact ⟨herror, by rw [predicate_ofSpec herror, predicate_ofSpec h]⟩

/-- Without repetitions among the select keys and the group keys, the records that a query keeps
are arranged alike whether its keys come from the spec or are declared. -/
theorem get_ofSpec_eq_declared {spec : Spec} {options : Options}
    (h : (ofSpec spec options).error = none) (hselect : spec.keys.select.Nodup)
    (hgroup : spec.keys.group.Nodup) (records : List Json) :
    (ofSpec spec options).get records
      = ((ofSpec { filter := spec.filter } options).declareKeys spec.keys).get records := by
  let bare := ofSpec { filter := spec.filter } options
  have hdeclared : bare.declareKeys spec.keys = { bare with keys := Keys.merge {} spec.keys } :=
    declareKeys_of_accepts (accepts_of_error_ofSpec h).2
  have harrange : spec.keys.arrange? = (Keys.merge {} spec.keys).arrange? := by
    funext kept
    have hsort := sortRecords_foldl_addUnique spec.keys.sort
    have hselected := Keys.foldl_addUnique_nil_eq_iff.mpr hselect
    have hgrouped := Keys.foldl_addUnique_nil_eq_iff.mpr hgroup
    rw [Keys.arrange?, Keys.arrange?, Keys.merge, hselected, hgrouped, hsort]
  have hget : ∀ q : Query, q.get records
      = q.predicate.map fun p => q.keys.arrange? (p.filter records) := fun q => rfl
  calc (ofSpec spec options).get records
      = (ofSpec spec options).predicate.map fun p => spec.keys.arrange? (p.filter records) :=
        hget _
    _ = bare.predicate.map fun p => (Keys.merge {} spec.keys).arrange? (p.filter records) := by
        rw [harrange, ← (predicate_ofSpec_without_keys h).2]
    _ = (bare.declareKeys spec.keys).get records := by
        rw [hdeclared, hget]
        rfl

/-- **The keys of a spec are declared keys if none is repeated.** A spec that makes a query
without error brings its key lists along as they are: they are those that its keys
declared one by one lead to exactly if no key is repeated in a role, and exactly then
no program of declarations that goes on from it leads to a repetition. The result is the same
then, and also if only sort keys are repeated. Without such a spec to start from there is
never a repetition, also if the query of a group has one, or queries are stored and read
again inside the program. -/
theorem keys_ofSpec_eq_declared_iff (spec : Spec) (options : Options)
    (herror : (ofSpec spec options).error = none) :
    (((empty options).declareKeys spec.keys).keys = (ofSpec spec options).keys
      ↔ spec.keys.IsUnique)
    ∧ ((∀ program : List Step, ((ofSpec spec options).run program).keys.IsUnique)
      ↔ spec.keys.IsUnique)
    ∧ (spec.keys.select.Nodup → spec.keys.group.Nodup → ∀ records : List Json,
      (ofSpec spec options).get records
        = ((ofSpec { filter := spec.filter } options).declareKeys spec.keys).get records)
    ∧ (∀ program : List Step, ((empty options).run program).keys.IsUnique)
    ∧ ∀ (q : Query) (link : Link) (negated : Bool), q.keys.IsUnique →
      (q.addGroup link negated (ofSpec spec options)).keys.IsUnique := by
  refine ⟨keys_ofSpec_eq_declared herror, ⟨fun h => h [], fun h program => ?_⟩,
    get_ofSpec_eq_declared herror, fun program => isUnique_run program Keys.isUnique_empty,
    fun q link negated h => isUnique_addGroup h link negated _⟩
  have hloaded : (ofSpec spec options).keys.IsUnique := h
  exact isUnique_run program hloaded

/-- A spec with a repeated sort key, whose result is that of the declared keys though its keys are
not, and a program that reads its query again after a group with keys of its own. -/
theorem keys_ofSpec_eq_declared_iff_sort :
    let spec : Spec := {
      filter := .clause (.truthy ⟨"open"⟩)
      keys := { select := [⟨"id"⟩, ⟨"kind"⟩], sort := [⟨"id"⟩, ⟨"id"⟩], group := [⟨"kind"⟩] } }
    let program : List Step := [
      .keys .sort ["id", "kind"], .group .or true [.keys .sort ["kind", "id"]], .reload none]
    (ofSpec spec {}).error = none
      ∧ ((empty {}).declareKeys spec.keys).keys ≠ (ofSpec spec {}).keys
      ∧ (∀ records : List Json, (ofSpec spec {}).get records
        = ((ofSpec { filter := spec.filter } {}).declareKeys spec.keys).get records)
      ∧ ((empty {}).run program).keys.IsUnique
      ∧ ((empty {}).addGroup .or true (ofSpec spec {})).keys.IsUnique := by
  intro spec program
  have herror : (ofSpec spec {}).error = none := rfl
  obtain ⟨hkeys, -, hget, hprograms, hgroups⟩ := keys_ofSpec_eq_declared_iff spec {} herror
  have hrepeated : ¬ spec.keys.IsUnique := by
    intro h
    exact absurd (h .sort) (by decide)
  exact ⟨herror, fun heq => hrepeated (hkeys.mp heq), hget (by decide) (by decide),
    hprograms program, hgroups _ .or true (hprograms [])⟩

/-- A group key that a spec repeats is a level of buckets that declaring the keys does not make,
and a select key that it repeats puts back what a key between the two has replaced. -/
theorem keys_ofSpec_keep_repetitions :
    let grouped : Spec := { keys := { group := [⟨"kind"⟩, ⟨"kind"⟩] } }
    let selected : Spec := { keys := { select := [⟨"kind"⟩, ⟨"kind.length"⟩, ⟨"kind"⟩] } }
    let record : Json := .object [("kind", .string "x")]
    let measured : Json := .object [("kind", .object [("length", .ofInt 1 (by decide))])]
    (ofSpec grouped {}).error = none ∧ (ofSpec selected {}).error = none
      ∧ ((empty {}).declareKeys grouped.keys).keys ≠ (ofSpec grouped {}).keys
      ∧ (ofSpec grouped {}).get [record]
        = .ok (some (.groups [("x", .groups [("x", .records [record])])]))
      ∧ ((empty {}).declareKeys grouped.keys).get [record]
        = .ok (some (.groups [("x", .records [record])]))
      ∧ (ofSpec selected {}).get [record] = .ok (some (.records [record]))
      ∧ ((empty {}).declareKeys selected.keys).get [record]
        = .ok (some (.records [measured])) := by
  intro grouped selected record measured
  have hgrouped : (ofSpec grouped {}).error = none := rfl
  have hselected : (ofSpec selected {}).error = none := rfl
  have hget : ∀ keys : Keys, keys.sort = [] → (project? keys.select record).isSome →
      ({ keys } : Query).get [record]
        = .ok (some (groupRecords keys.group (selectRecords keys.select [record]))) := by
    rintro ⟨select, sort, group⟩ rfl hroom
    have harrange : Keys.arrange? ⟨select, [], group⟩ [record]
        = some (Keys.arrange ⟨select, [], group⟩ [record]) :=
      Keys.arrange?_eq_some (List.forall_mem_singleton.mpr hroom)
    rw [Query.get, predicate_of_keys]
    exact (congrArg Except.ok harrange).trans
      (congrArg (fun sorted => Except.ok (some (groupRecords group sorted)))
        (List.mergeSort_singleton (project select record)))
  have hloaded : project selected.keys.select record = record := by decide +kernel
  have hdeclared : project [⟨"kind"⟩, ⟨"kind.length"⟩] record = measured := by decide +kernel
  refine ⟨hgrouped, hselected, by decide, hget grouped.keys rfl rfl, ?_, ?_, ?_⟩
  · rw [declareKeys_of_accepts (accepts_of_error_ofSpec hgrouped).2]
    exact hget _ rfl rfl
  · exact (hget selected.keys rfl (by decide +kernel)).trans
      (congrArg (fun r => Except.ok (some (Output.records [r]))) hloaded)
  · rw [declareKeys_of_accepts (accepts_of_error_ofSpec hselected).2]
    exact (hget _ rfl (by decide +kernel)).trans
      (congrArg (fun r => Except.ok (some (Output.records [r]))) hdeclared)

end Query

end RecordQuery
