import Mathlib.Data.List.Induction
import Mathlib.Data.List.Nodup
import RecordQuery.Arrangement.Grouping

/-!
# The buckets of one level

What `distribute` makes of records, read off the records: one bucket for
each name that occurs, in order of first appearance (`bucketNames`), and
in it the records of that name in the order they had (`bucketOf`).

The loop keeps two things, the buckets and an index of their names, and
each record is put where the index says. `Buckets.Holds` relates both to
the records that have been put in so far. Adding a record keeps it
(`Buckets.Holds.add`), and so all records do (`holds_distribute`).
-/

namespace RecordQuery

/-! ## Names and members, read off the records -/

/-- The names of all buckets, by first appearance. -/
def bucketNames (key : FieldPath) (records : List Json) : List String :=
  (records.map (bucketName key)).eraseDups

/-- The records of one bucket. -/
def bucketOf (key : FieldPath) (name : String) (records : List Json) : List Json :=
  records.filter fun record => bucketName key record == name

variable {key : FieldPath}

theorem mem_bucketNames {records : List Json} {name : String} :
    name ∈ bucketNames key records ↔ ∃ record ∈ records, bucketName key record = name := by
  rw [bucketNames, List.mem_eraseDups, List.mem_map]

/-- What comes last is kept unless it has come before. -/
theorem eraseDups_concat {α : Type} [DecidableEq α] (as : List α) (a : α) :
    (as ++ [a]).eraseDups = if a ∈ as then as.eraseDups else as.eraseDups ++ [a] := by
  rw [List.eraseDups_append]
  split
  · rename_i h
    have hgone : [a].removeAll as = [] := by simpa [List.removeAll] using h
    rw [hgone, List.eraseDups_nil, List.append_nil]
  · rename_i h
    have hstays : [a].removeAll as = [a] := by simpa [List.removeAll] using h
    rw [hstays]
    rfl

/-- A further record adds its name at the end, unless the name is there already. -/
theorem bucketNames_concat (records : List Json) (record : Json) :
    bucketNames key (records ++ [record])
      = if bucketName key record ∈ bucketNames key records then bucketNames key records
        else bucketNames key records ++ [bucketName key record] := by
  simp only [bucketNames, List.map_append, List.map_singleton, eraseDups_concat,
    List.mem_eraseDups]

theorem bucketOf_concat (name : String) (records : List Json) (record : Json) :
    bucketOf key name (records ++ [record])
      = bucketOf key name records ++ if bucketName key record = name then [record] else [] := by
  simp only [bucketOf, List.filter_append, List.filter_cons, List.filter_nil, beq_iff_eq]

theorem nodup_bucketNames (records : List Json) : (bucketNames key records).Nodup := by
  induction records using List.reverseRecOn with
  | nil => exact List.nodup_nil
  | append_singleton records record ih =>
      rw [bucketNames_concat]
      split
      · exact ih
      · rename_i hnew
        rw [← List.concat_eq_append]
        exact List.Nodup.concat hnew ih

theorem bucketOf_ne_nil {records : List Json} {name : String} :
    bucketOf key name records ≠ [] ↔ name ∈ bucketNames key records := by
  rw [mem_bucketNames, bucketOf, Ne, List.filter_eq_nil_iff]
  simp only [beq_iff_eq, not_forall, not_not, exists_prop]

/-- Names come in the order in which they first appear among the records. -/
theorem pairwise_bucketNames (records : List Json) :
    (bucketNames key records).Pairwise fun a b =>
      (records.map (bucketName key)).idxOf a < (records.map (bucketName key)).idxOf b := by
  induction records using List.reverseRecOn with
  | nil => exact List.Pairwise.nil
  | append_singleton records record ih =>
      -- A name that occurs keeps its first position when records follow.
      have hkept : ∀ {name}, name ∈ bucketNames key records →
          ((records ++ [record]).map (bucketName key)).idxOf name
            = (records.map (bucketName key)).idxOf name
          ∧ (records.map (bucketName key)).idxOf name < records.length := by
        intro name hname
        have hmem : name ∈ records.map (bucketName key) := List.mem_eraseDups.mp hname
        rw [List.map_append, List.idxOf_append, if_pos hmem]
        exact ⟨rfl, by simpa using List.idxOf_lt_length_of_mem hmem⟩
      have hold : (bucketNames key records).Pairwise fun a b =>
          ((records ++ [record]).map (bucketName key)).idxOf a
            < ((records ++ [record]).map (bucketName key)).idxOf b := by
        refine ih.imp_of_mem fun ha hb hlt => ?_
        rw [(hkept ha).1, (hkept hb).1]
        exact hlt
      rw [bucketNames_concat]
      split
      · exact hold
      · rename_i hnew
        refine List.pairwise_append.mpr ⟨hold, List.pairwise_singleton _ _, ?_⟩
        intro a ha b hb
        obtain rfl := List.mem_singleton.mp hb
        have hfresh : bucketName key record ∉ records.map (bucketName key) :=
          fun hmem => hnew (List.mem_eraseDups.mpr hmem)
        rw [(hkept ha).1, List.map_append, List.idxOf_append, if_neg hfresh, List.length_map]
        exact Nat.lt_of_lt_of_le (hkept ha).2 (Nat.le_add_left _ _)

/-! ## The loop -/

/-- The buckets hold the records and nothing else, and the index finds every bucket. -/
structure Buckets.Holds (key : FieldPath) (records : List Json) (buckets : Buckets) : Prop where
  entries : buckets.entries
    = (bucketNames key records).map fun name => (name, bucketOf key name records)
  index : ∀ name, buckets.index.lookup name = (bucketNames key records).idxOf? name

namespace Buckets.Holds

variable {records : List Json} {buckets : Buckets}

theorem empty : Buckets.Holds key [] {} :=
  ⟨rfl, fun _ => rfl⟩

/-- A record whose name is known goes to the end of the bucket that the index finds. -/
theorem add_known (h : buckets.Holds key records) {record : Json}
    (hknown : bucketName key record ∈ bucketNames key records) :
    (buckets.add (bucketName key record) record).Holds key (records ++ [record]) := by
  have hnames : bucketNames key (records ++ [record]) = bucketNames key records := by
    rw [bucketNames_concat, if_pos hknown]
  obtain ⟨position, hposition⟩ :=
    Option.isSome_iff_exists.mp (List.isSome_idxOf?.mpr hknown)
  have hfound : buckets.index.lookup (bucketName key record) = some position :=
    (h.index _).trans hposition
  obtain ⟨hlt, hat, -⟩ := List.idxOf?_eq_some_iff.mp hposition
  constructor
  · rw [Buckets.add, hfound]
    dsimp only
    rw [h.entries, hnames]
    refine List.ext_getElem (by simp) fun i _ hi => ?_
    rw [List.length_map] at hi
    have hname : (bucketNames key records)[i] = bucketName key record ↔ position = i := by
      rw [← hat, eq_comm]
      exact List.Nodup.getElem_inj_iff (nodup_bucketNames records)
    rw [List.getElem_modify, List.getElem_map, List.getElem_map, bucketOf_concat]
    split
    · rename_i hpos
      rw [if_pos (hname.mpr hpos).symm]
    · rename_i hpos
      rw [if_neg (fun heq => hpos (hname.mp heq.symm)), List.append_nil]
  · intro name
    rw [Buckets.add, hfound, hnames]
    exact h.index name

/-- A record whose name is new opens a bucket at the end. -/
theorem add_new (h : buckets.Holds key records) {record : Json}
    (hnew : bucketName key record ∉ bucketNames key records) :
    (buckets.add (bucketName key record) record).Holds key (records ++ [record]) := by
  have hnames : bucketNames key (records ++ [record])
      = bucketNames key records ++ [bucketName key record] := by
    rw [bucketNames_concat, if_neg hnew]
  have hmissing : buckets.index.lookup (bucketName key record) = none :=
    (h.index _).trans (List.idxOf?_eq_none_iff.mpr hnew)
  have hopened : bucketOf key (bucketName key record) records = [] :=
    not_not.mp fun hne => hnew (bucketOf_ne_nil.mp hne)
  constructor
  · rw [Buckets.add, hmissing]
    dsimp only
    rw [h.entries, hnames, List.map_append, List.map_singleton, bucketOf_concat, hopened,
      if_pos rfl, List.nil_append]
    refine congrArg (· ++ _) (List.map_congr_left fun name hname => ?_)
    have hother : bucketName key record ≠ name := fun heq => hnew (heq.symm ▸ hname)
    rw [bucketOf_concat, if_neg hother, List.append_nil]
  · intro name
    rw [Buckets.add, hmissing]
    dsimp only
    rw [hnames, List.idxOf?, List.findIdx?_append, List.lookup_cons, h.entries, List.length_map]
    by_cases hname : name = bucketName key record
    · subst hname
      have hnone := List.idxOf?_eq_none_iff.mpr hnew
      rw [List.idxOf?] at hnone
      simp [hnone]
    · have hother : (name == bucketName key record) = false := by simpa using hname
      have hlookup := h.index name
      rw [List.idxOf?] at hlookup
      simp [hlookup, hother, Ne.symm hname]

theorem add (h : buckets.Holds key records) (record : Json) :
    (buckets.add (bucketName key record) record).Holds key (records ++ [record]) := by
  by_cases hname : bucketName key record ∈ bucketNames key records
  · exact h.add_known hname
  · exact h.add_new hname

theorem foldl : ∀ {records : List Json} {buckets : Buckets}, buckets.Holds key records →
    ∀ further : List Json,
      (further.foldl (fun buckets record => buckets.add (bucketName key record) record)
        buckets).Holds key (records ++ further)
  | records, _, h, [] => by
      rw [List.append_nil]
      exact h
  | records, _, h, record :: further => by
      have hrest := (h.add record).foldl further
      rw [List.append_assoc] at hrest
      exact hrest

end Buckets.Holds

theorem holds_distribute (key : FieldPath) (records : List Json) :
    (distribute key records).Holds key records :=
  Buckets.Holds.empty.foldl records

/-- Grouping by a first key, with the buckets read off the records. -/
theorem groupRecords_cons (key : FieldPath) (rest : List FieldPath) (records : List Json) :
    groupRecords (key :: rest) records
      = .groups ((bucketNames key records).map fun name =>
          (name, groupRecords rest (bucketOf key name records))) := by
  rw [groupRecords, (holds_distribute key records).entries, List.map_map]
  rfl

end RecordQuery
