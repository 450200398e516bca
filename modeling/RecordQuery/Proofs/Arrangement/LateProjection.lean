import RecordQuery.Arrangement.Basic
import RecordQuery.Proofs.Arrangement.Distribution
import RecordQuery.Proofs.FieldValue.Documents

/-!
# Projection may come last

Sorting and grouping look at a record through the values of their keys
alone, so a function on records that every key survives commutes with
both: the records of the result are moved, and where they stand is not
(`sortRecords_map`, `groupRecords_map`). A key survives if the value it
finds has the same document as before (`KeyUnmoved`); that is enough, as
neither the text of a value nor its place in the order says more.

Projection is such a function for the keys that are selected as a whole,
so a query may as well be sorted and grouped first and cut down at the
leaves.
-/

namespace RecordQuery

/-! ## Records of a result -/

namespace Output

mutual

/-- The result with every record at its leaves replaced. -/
def mapRecords (f : Json → Json) : Output → Output
  | records items => records (items.map f)
  | groups buckets => groups (mapBuckets f buckets)

def mapBuckets (f : Json → Json) : List (String × Output) → List (String × Output)
  | [] => []
  | (name, output) :: rest => (name, output.mapRecords f) :: mapBuckets f rest

end

theorem mapBuckets_eq_map (f : Json → Json) (buckets : List (String × Output)) :
    mapBuckets f buckets = buckets.map fun bucket => (bucket.1, bucket.2.mapRecords f) := by
  induction buckets with
  | nil => rfl
  | cons bucket rest ih => rw [mapBuckets, ih, List.map_cons]

end Output

/-! ## Keys that survive -/

/-- The key finds the same document in a record and in what a function makes of it, or nothing
in both. -/
def KeyUnmoved (f : Json → Json) (record : Json) (key : FieldPath) : Prop :=
  (key.resolve (f record)).toJson? = (key.resolve record).toJson?

instance (f : Json → Json) (record : Json) (key : FieldPath) :
    Decidable (KeyUnmoved f record key) :=
  inferInstanceAs (Decidable (_ = _))

variable {f : Json → Json} {records : List Json}

theorem KeyUnmoved.bucketName_eq {record : Json} {key : FieldPath}
    (h : KeyUnmoved f record key) : bucketName key (f record) = bucketName key record :=
  FieldValue.text_congr (key.isStorable_resolve (f record)) (key.isStorable_resolve record) h

theorem compareByKeys_map {a b : Json} :
    ∀ {keys : List FieldPath}, (∀ key ∈ keys, KeyUnmoved f a key) →
      (∀ key ∈ keys, KeyUnmoved f b key) →
      compareByKeys keys (f a) (f b) = compareByKeys keys a b
  | [], _, _ => rfl
  | key :: rest, ha, hb => by
      obtain ⟨hakey, harest⟩ := List.forall_mem_cons.mp ha
      obtain ⟨hbkey, hbrest⟩ := List.forall_mem_cons.mp hb
      have hfirst := FieldValue.compareForSort_congr (key.isStorable_resolve (f a))
        (key.isStorable_resolve (f b)) (key.isStorable_resolve a) (key.isStorable_resolve b)
        hakey hbkey
      rw [compareByKeys, compareByKeys, hfirst, compareByKeys_map harest hbrest]

/-! ## Sorting and grouping commute -/

theorem sortRecords_map {keys : List FieldPath}
    (h : ∀ record ∈ records, ∀ key ∈ keys, KeyUnmoved f record key) :
    sortRecords keys (records.map f) = (sortRecords keys records).map f := by
  have horder : ∀ a ∈ records, ∀ b ∈ records,
      (compareByKeys keys a b != .gt) = (compareByKeys keys (f a) (f b) != .gt) := by
    intro a ha b hb
    rw [compareByKeys_map (h a ha) (h b hb)]
  exact (List.map_mergeSort horder).symm

theorem bucketNames_map {key : FieldPath} (h : ∀ record ∈ records, KeyUnmoved f record key) :
    bucketNames key (records.map f) = bucketNames key records := by
  rw [bucketNames, bucketNames, List.map_map]
  exact congrArg List.eraseDups (List.map_congr_left fun record hrecord =>
    (h record hrecord).bucketName_eq)

theorem bucketOf_map {key : FieldPath} (h : ∀ record ∈ records, KeyUnmoved f record key)
    (name : String) : bucketOf key name (records.map f) = (bucketOf key name records).map f := by
  rw [bucketOf, bucketOf, List.filter_map]
  refine congrArg (List.map f) (List.filter_congr fun record hrecord => ?_)
  rw [Function.comp_apply, (h record hrecord).bucketName_eq]

theorem groupRecords_map :
    ∀ {keys : List FieldPath} {records : List Json},
      (∀ record ∈ records, ∀ key ∈ keys, KeyUnmoved f record key) →
      groupRecords keys (records.map f) = (groupRecords keys records).mapRecords f
  | [], _, _ => by rw [groupRecords, groupRecords, Output.mapRecords]
  | key :: rest, records, h => by
      have hkey : ∀ record ∈ records, KeyUnmoved f record key :=
        fun record hrecord => h record hrecord key List.mem_cons_self
      rw [groupRecords_cons, groupRecords_cons, Output.mapRecords, Output.mapBuckets_eq_map,
        bucketNames_map hkey, List.map_map]
      refine congrArg Output.groups (List.map_congr_left fun name _ => ?_)
      -- The records of a bucket are among those of the level.
      have hbucket : ∀ record ∈ bucketOf key name records, ∀ key ∈ rest,
          KeyUnmoved f record key := fun record hrecord key hmem =>
        h record (List.mem_of_mem_filter hrecord) key (List.mem_cons_of_mem _ hmem)
      rw [Function.comp_apply, bucketOf_map hkey, groupRecords_map hbucket]

/-- **Projection may come last.** Where every key that records are sorted or
grouped by finds in the projection of a record what it finds in the record,
projecting first gives the result that sorting and grouping whole records
gives, with each record at its leaves projected: the same buckets in the same
order, and in each of them the same order of records. -/
theorem arrange_eq_mapRecords_project (keys : Keys) (records : List Json)
    (h : ∀ record ∈ records, ∀ key ∈ keys.sort ++ keys.group,
      KeyUnmoved (project keys.select) record key) :
    keys.arrange records
      = (({ keys with select := [] } : Keys).arrange records).mapRecords
          (project keys.select) := by
  have hsort : ∀ record ∈ records, ∀ key ∈ keys.sort,
      KeyUnmoved (project keys.select) record key := fun record hrecord key hkey =>
    h record hrecord key (List.mem_append_left _ hkey)
  have hgroup : ∀ record ∈ sortRecords keys.sort records, ∀ key ∈ keys.group,
      KeyUnmoved (project keys.select) record key := fun record hrecord key hkey =>
    h record (List.mem_mergeSort.mp hrecord) key (List.mem_append_right _ hkey)
  rw [Keys.arrange, Keys.arrange, selectRecords_nil, selectRecords, sortRecords_map hsort,
    groupRecords_map hgroup]

/-- The length of an array becomes a number under a name, a list that is copied is
grouped by its text still, and a key that finds nothing finds nothing. -/
theorem arrange_eq_mapRecords_project_length :
    let keys : Keys := {
      select := [⟨"tags.length"⟩, ⟨"owner"⟩]
      sort := [⟨"tags.length"⟩, ⟨"due"⟩]
      group := [⟨"owner"⟩, ⟨"tags.length"⟩] }
    let ours : Json := .array [.string "me", .null]
    let two : Json := .object [("owner", ours), ("tags", .array [.string "a", .string "b"])]
    let one : Json := .object [("owner", .string "me,"), ("tags", .array [.bool true])]
    let none : Json := .object [("done", .bool true)]
    (∀ record ∈ [two, none, one], ∀ key ∈ keys.sort ++ keys.group,
        KeyUnmoved (project keys.select) record key)
      ∧ keys.arrange [two, none, one]
        = (({ keys with select := [] } : Keys).arrange [two, none, one]).mapRecords
            (project keys.select)
      ∧ project keys.select two
        = .object [("owner", ours), ("tags", .object [("length", .ofInt 2 (by decide))])] := by
  intro keys ours two one none
  have hkeys : ∀ record ∈ [two, none, one], ∀ key ∈ keys.sort ++ keys.group,
      KeyUnmoved (project keys.select) record key := by
    decide +kernel
  exact ⟨hkeys, arrange_eq_mapRecords_project keys [two, none, one] hkeys, by decide +kernel⟩

end RecordQuery
