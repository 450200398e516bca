import Mathlib.Data.List.Perm.Basic
import RecordQuery.Proofs.Arrangement.Distribution

/-!
# Grouping is an exact partition

A grouped result is looked into by following bucket names from the
outermost level on (`Output.follow?`). As many names as there are keys
lead to the records for which each key has the text of its name, in the
order they had; fewer lead to a level of buckets, one for each text that
the next key has among the records reached so far (`IsLevel`).

Both are read off one equation, `follow?_groupRecords`: what is reached
by some names is the grouping of `recordsUnder` by the keys that are left.
-/

namespace RecordQuery

namespace Output

/-- What bucket names lead to, the outermost first. -/
def follow? (output : Output) : List String → Option Output
  | [] => some output
  | name :: rest => (output.group? name).bind fun bucket => bucket.follow? rest

mutual

/-- All records of a result, bucket after bucket. -/
def leaves : Output → List Json
  | records items => items
  | groups buckets => leavesOf buckets

def leavesOf : List (String × Output) → List Json
  | [] => []
  | (_, output) :: rest => output.leaves ++ leavesOf rest

end

theorem leavesOf_eq_flatMap (buckets : List (String × Output)) :
    leavesOf buckets = buckets.flatMap fun bucket => bucket.2.leaves := by
  induction buckets with
  | nil => rfl
  | cons bucket rest ih => rw [leavesOf, ih, List.flatMap_cons]

end Output

/-- The records for which the leading keys have the texts given, one text for each of them. -/
def recordsUnder (keys : List FieldPath) (names : List String) (records : List Json) :
    List Json :=
  records.filter fun record => (keys.zip names).all fun (key, name) => bucketName key record == name

theorem recordsUnder_nil (keys : List FieldPath) (records : List Json) :
    recordsUnder keys [] records = records := by
  rw [recordsUnder, List.zip_nil_right]
  exact List.filter_eq_self.mpr fun _ _ => rfl

theorem recordsUnder_cons (key : FieldPath) (keys : List FieldPath) (name : String)
    (names : List String) (records : List Json) :
    recordsUnder (key :: keys) (name :: names) records
      = recordsUnder keys names (bucketOf key name records) := by
  rw [recordsUnder, recordsUnder, bucketOf, List.filter_filter]
  simp only [List.zip_cons_cons, List.all_cons, Bool.and_comm]

/-! ## Looking into a grouped result -/

theorem lookup_map_of_not_mem {α β : Type} [BEq α] [LawfulBEq α] (f : α → β) {a : α}
    {as : List α} (h : a ∉ as) : (as.map fun x => (x, f x)).lookup a = none := by
  refine List.lookup_eq_none_iff.mpr fun entry hentry => ?_
  obtain ⟨x, hx, rfl⟩ := List.mem_map.mp hentry
  exact bne_iff_ne.mpr fun heq => h (heq.symm ▸ hx)

theorem group?_groupRecords_cons (key : FieldPath) (rest : List FieldPath) (records : List Json)
    (name : String) :
    (groupRecords (key :: rest) records).group? name
      = if bucketOf key name records = [] then none
        else some (groupRecords rest (bucketOf key name records)) := by
  rw [groupRecords_cons, Output.group?, Output.groups?, Option.bind_some]
  split
  · rename_i hempty
    exact lookup_map_of_not_mem _ fun hmem => bucketOf_ne_nil.mpr hmem hempty
  · rename_i hrecords
    exact List.lookup_graph (fun name => groupRecords rest (bucketOf key name records))
      (bucketOf_ne_nil.mp hrecords)

/-- Names lead to the records under them, grouped by the keys that are left, and to nothing
where there are no such records. -/
theorem follow?_groupRecords :
    ∀ {keys : List FieldPath} {names : List String} (records : List Json),
      names.length ≤ keys.length →
      (groupRecords keys records).follow? names
        = if names = [] ∨ recordsUnder keys names records ≠ []
          then some (groupRecords (keys.drop names.length) (recordsUnder keys names records))
          else none
  | keys, [], records, _ => by
      rw [if_pos (Or.inl rfl), recordsUnder_nil]
      rfl
  | key :: keys, name :: names, records, h => by
      have hle : names.length ≤ keys.length := Nat.le_of_succ_le_succ h
      rw [Output.follow?, group?_groupRecords_cons, recordsUnder_cons]
      by_cases hempty : bucketOf key name records = []
      · have hnone : recordsUnder keys names ([] : List Json) = [] := rfl
        simp [hempty, hnone]
      · rw [if_neg hempty, Option.bind_some, follow?_groupRecords _ hle]
        -- Where no further name is given, the bucket itself has records.
        have hsome : names = [] → recordsUnder keys names (bucketOf key name records) ≠ [] := by
          rintro rfl
          rwa [recordsUnder_nil]
        simp only [reduceCtorEq, false_or, List.length_cons, List.drop_succ_cons]
        by_cases hunder : recordsUnder keys names (bucketOf key name records) = []
        · rw [if_neg (by simpa [hunder] using fun heq => hsome heq hunder),
            if_neg (by simp [hunder])]
        · rw [if_pos (Or.inr hunder), if_pos hunder]

/-! ## One level -/

/-- The buckets that records fall into by the text of a key. -/
structure IsLevel (key : FieldPath) (records : List Json) (buckets : List (String × Output)) :
    Prop where
  nodup_names : (buckets.map Prod.fst).Nodup
  mem_names : ∀ name,
    name ∈ buckets.map Prod.fst ↔ ∃ record ∈ records, bucketName key record = name
  first_appearance : (buckets.map Prod.fst).Pairwise fun a b =>
    (records.map (bucketName key)).idxOf a < (records.map (bucketName key)).idxOf b
  bucket_not_empty : ∀ bucket ∈ buckets, bucket.2.isEmpty = false

theorem isEmpty_groupRecords {keys : List FieldPath} {records : List Json} (h : records ≠ []) :
    (groupRecords keys records).isEmpty = false := by
  cases keys with
  | nil => simpa [groupRecords, Output.isEmpty, Output.size] using h
  | cons key rest =>
      obtain ⟨record, hrecord⟩ := List.exists_mem_of_ne_nil records h
      have hname : bucketName key record ∈ bucketNames key records :=
        mem_bucketNames.mpr ⟨record, hrecord, rfl⟩
      rw [groupRecords_cons, Output.isEmpty, Output.size, List.length_map, beq_eq_false_iff_ne]
      exact Nat.ne_of_gt (List.length_pos_of_mem hname)

theorem exists_level_groupRecords (key : FieldPath) (rest : List FieldPath)
    (records : List Json) :
    ∃ buckets, groupRecords (key :: rest) records = .groups buckets
      ∧ IsLevel key records buckets := by
  refine ⟨_, groupRecords_cons key rest records, ?_⟩
  have hnames : ((bucketNames key records).map fun name =>
      (name, groupRecords rest (bucketOf key name records))).map Prod.fst
        = bucketNames key records := by
    rw [List.map_map]
    exact List.map_id _
  constructor
  · rw [hnames]
    exact nodup_bucketNames records
  · intro name
    rw [hnames]
    exact mem_bucketNames
  · rw [hnames]
    exact pairwise_bucketNames records
  · intro bucket hbucket
    obtain ⟨name, hname, rfl⟩ := List.mem_map.mp hbucket
    exact isEmpty_groupRecords (bucketOf_ne_nil.mpr hname)

/-! ## All records -/

/-- Distinct names split the records that have one of them. -/
theorem perm_flatMap_bucketOf (key : FieldPath) (records : List Json) :
    ∀ {names : List String}, names.Nodup →
      (names.flatMap fun name => bucketOf key name records).Perm
        (records.filter fun record => bucketName key record ∈ names)
  | [], _ => by simp
  | name :: rest, h => by
      obtain ⟨hname, hrest⟩ := List.nodup_cons.mp h
      let named := records.filter fun record => bucketName key record ∈ name :: rest
      have hfirst : bucketOf key name records
          = named.filter fun record => bucketName key record == name := by
        rw [bucketOf, List.filter_filter]
        refine List.filter_congr fun record _ => ?_
        by_cases hrecord : bucketName key record = name <;> simp [hrecord]
      have hothers : (records.filter fun record => bucketName key record ∈ rest)
          = named.filter fun record => !(bucketName key record == name) := by
        rw [List.filter_filter]
        refine List.filter_congr fun record _ => ?_
        by_cases hrecord : bucketName key record = name <;> simp [hrecord, hname]
      rw [List.flatMap_cons, hfirst]
      refine List.Perm.trans (List.Perm.append_left _ (perm_flatMap_bucketOf key records hrest)) ?_
      rw [hothers]
      exact List.filter_append_perm _ named

theorem perm_leaves_groupRecords :
    ∀ (keys : List FieldPath) (records : List Json),
      (groupRecords keys records).leaves.Perm records
  | [], records => by
      rw [groupRecords, Output.leaves]
  | key :: rest, records => by
      rw [groupRecords_cons, Output.leaves, Output.leavesOf_eq_flatMap, List.flatMap_map]
      have hall : (records.filter fun record => bucketName key record ∈ bucketNames key records)
          = records :=
        List.filter_eq_self.mpr fun record hrecord =>
          decide_eq_true (mem_bucketNames.mpr ⟨record, hrecord, rfl⟩)
      have hnodup : (bucketNames key records).Nodup := nodup_bucketNames records
      have hsplit := perm_flatMap_bucketOf key records hnodup
      rw [hall] at hsplit
      refine List.Perm.trans (List.Perm.flatMap_left _ fun name _ => ?_) hsplit
      exact perm_leaves_groupRecords rest (bucketOf key name records)

/-! ## The partition -/

/-- **Grouping is an exact nested partition.** One name for each key leads to the
records for which every key has the text of its name, in their order, and to
nothing if there are none. Fewer names lead to a level of buckets for the next
key: names are distinct and come by first appearance, and no bucket is empty.
So no record is lost or doubled. -/
theorem groupRecords_exact_partition {keys : List FieldPath} (hkeys : keys ≠ [])
    (records : List Json) :
    (∀ names : List String, names.length = keys.length →
      (groupRecords keys records).follow? names
        = if recordsUnder keys names records = [] then none
          else some (.records (recordsUnder keys names records)))
    ∧ (∀ (names : List String) (level : Output), names.length < keys.length →
      (groupRecords keys records).follow? names = some level →
      ∃ key buckets, keys[names.length]? = some key ∧ level = .groups buckets
        ∧ IsLevel key (recordsUnder keys names records) buckets)
    ∧ (groupRecords keys records).leaves.Perm records := by
  refine ⟨fun names hlength => ?_, fun names level hlength hlevel => ?_,
    perm_leaves_groupRecords keys records⟩
  · have hnames : names ≠ [] := by
      rintro rfl
      exact hkeys (List.length_eq_zero_iff.mp hlength.symm)
    rw [follow?_groupRecords records (Nat.le_of_eq hlength), hlength, List.drop_length,
      groupRecords]
    simp only [hnames, false_or, ite_not]
  · rw [follow?_groupRecords records (Nat.le_of_lt hlength)] at hlevel
    split at hlevel
    · obtain rfl := Option.some.inj hlevel
      rw [List.drop_eq_getElem_cons hlength]
      obtain ⟨buckets, hbuckets, hlevel⟩ := exists_level_groupRecords keys[names.length]
        (keys.drop (names.length + 1)) (recordsUnder keys names records)
      exact ⟨keys[names.length], buckets, List.getElem?_eq_getElem hlength, hbuckets, hlevel⟩
    · cases hlevel

/-- The number 1, the text 1 and an array of the number have one text, and so do
the text `undefined` and nothing. -/
theorem groupRecords_exact_partition_across_kinds :
    let keys : List FieldPath := [⟨"t"⟩, ⟨"s"⟩]
    let number : Json := .object [("s", .bool true), ("t", .ofInt 1 (by decide))]
    let array : Json := .object [("t", .array [.ofInt 1 (by decide)])]
    let text : Json := .object [("s", .string "undefined"), ("t", .string "1")]
    let other : Json := .object [("s", .string "undefined")]
    let grouped := groupRecords keys [number, array, other, text]
    keys ≠ []
      ∧ grouped.follow? ["1", "undefined"] = some (.records [array, text])
      ∧ grouped.follow? ["2", "true"] = none
      ∧ (∃ buckets, grouped.follow? ["1"] = some (.groups buckets)
        ∧ IsLevel ⟨"s"⟩ [number, array, text] buckets)
      ∧ grouped.leaves.Perm [number, array, other, text] := by
  intro keys number array text other grouped
  have hkeys : keys ≠ [] := by simp [keys]
  obtain ⟨hrecords, hlevels, hleaves⟩ :=
    groupRecords_exact_partition hkeys [number, array, other, text]
  have hundefined : recordsUnder keys ["1", "undefined"] [number, array, other, text]
      = [array, text] := by decide +kernel
  have hnone : recordsUnder keys ["2", "true"] [number, array, other, text] = [] := by
    decide +kernel
  have hone : recordsUnder keys ["1"] [number, array, other, text] = [number, array, text] := by
    decide +kernel
  have hreached := follow?_groupRecords [number, array, other, text]
    (by decide : ["1"].length ≤ keys.length)
  rw [hone, if_pos (Or.inr (List.cons_ne_nil _ _))] at hreached
  obtain ⟨key, buckets, hkey, hbuckets, hlevel⟩ := hlevels ["1"] _ (by decide) hreached
  obtain rfl : ⟨"s"⟩ = key := Option.some.inj hkey
  rw [hone] at hlevel
  refine ⟨hkeys, ?_, ?_, ⟨buckets, hreached.trans (congrArg some hbuckets), hlevel⟩, hleaves⟩
  · rw [hrecords _ rfl, hundefined, if_neg (List.cons_ne_nil _ _)]
  · rw [hrecords _ rfl, hnone, if_pos rfl]

end RecordQuery
