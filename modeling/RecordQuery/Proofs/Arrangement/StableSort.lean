import Mathlib.Data.List.Basic
import RecordQuery.Arrangement.Sorting
import RecordQuery.Proofs.FieldValue.SortOrder

/-!
# Sorting is the stable sort

The order of records by keys, said without the comparison: one record
comes before another if some key says so and all keys before it leave
the two equal (`Precedes`), and two records tie if every key leaves them
equal (`Ties`). A stable sort of records (`IsStableSort`) has the same
records, none after one that it precedes, and those that tie in the
order they had.

There is exactly one such list, because the first record of a sorted
list ties with the first of any other, and `sortRecords` makes it. What
else is true of sorting follows from that: to sort by a first key what
is sorted by the others is to sort by all of them.
-/

namespace RecordQuery

open FieldValue (compareForSort)

/-! ## The order of records -/

/-- Every key leaves the two records equal. -/
def Ties (keys : List FieldPath) (a b : Json) : Prop :=
  ∀ key ∈ keys, compareForSort (key.resolve a) (key.resolve b) = .eq

/-- A key puts one record before the other, and the keys before it leave the two equal. -/
def Precedes (keys : List FieldPath) (a b : Json) : Prop :=
  ∃ before key after, keys = before ++ key :: after ∧ Ties before a b
    ∧ compareForSort (key.resolve a) (key.resolve b) = .lt

instance (keys : List FieldPath) (a b : Json) : Decidable (Ties keys a b) :=
  inferInstanceAs (Decidable (∀ key ∈ keys, _))

theorem ties_cons {key : FieldPath} {rest : List FieldPath} {a b : Json} :
    Ties (key :: rest) a b
      ↔ compareForSort (key.resolve a) (key.resolve b) = .eq ∧ Ties rest a b :=
  List.forall_mem_cons

theorem compareByKeys_eq_eq {keys : List FieldPath} {a b : Json} :
    compareByKeys keys a b = .eq ↔ Ties keys a b := by
  induction keys with
  | nil => simp [compareByKeys, Ties]
  | cons key rest ih => rw [compareByKeys, Ordering.then_eq_eq, ih, ties_cons]

theorem precedes_cons {key : FieldPath} {rest : List FieldPath} {a b : Json} :
    Precedes (key :: rest) a b
      ↔ compareForSort (key.resolve a) (key.resolve b) = .lt
        ∨ compareForSort (key.resolve a) (key.resolve b) = .eq ∧ Precedes rest a b := by
  constructor
  · rintro ⟨before, other, after, hkeys, hties, hlt⟩
    cases before with
    | nil =>
        obtain ⟨rfl, -⟩ := List.cons.inj hkeys
        exact Or.inl hlt
    | cons first before =>
        obtain ⟨rfl, rfl⟩ := List.cons.inj hkeys
        obtain ⟨hfirst, hties⟩ := ties_cons.mp hties
        exact Or.inr ⟨hfirst, before, other, after, rfl, hties, hlt⟩
  · rintro (hlt | ⟨heq, before, other, after, rfl, hties, hlt⟩)
    · exact ⟨[], key, rest, rfl, fun _ hmem => absurd hmem List.not_mem_nil, hlt⟩
    · exact ⟨key :: before, other, after, rfl, ties_cons.mpr ⟨heq, hties⟩, hlt⟩

theorem compareByKeys_eq_lt {keys : List FieldPath} {a b : Json} :
    compareByKeys keys a b = .lt ↔ Precedes keys a b := by
  induction keys with
  | nil =>
      constructor
      · intro h
        cases h
      · rintro ⟨before, key, after, hkeys, -⟩
        cases before <;> cases hkeys
  | cons key rest ih => rw [compareByKeys, Ordering.then_eq_lt, ih, precedes_cons]

instance transCmp_compareByKeys (keys : List FieldPath) : Std.TransCmp (compareByKeys keys) := by
  induction keys with
  | nil => exact { eq_swap := rfl, isLE_trans := fun _ _ => rfl }
  | cons key rest ih =>
      have hkey : Std.TransCmp fun a b => compareForSort (key.resolve a) (key.resolve b) :=
        { eq_swap := Std.OrientedCmp.eq_swap, isLE_trans := Std.TransCmp.isLE_trans }
      exact inferInstanceAs (Std.TransCmp (compareLex
        (fun a b => compareForSort (key.resolve a) (key.resolve b)) (compareByKeys rest)))

theorem ties_comm {keys : List FieldPath} {a b : Json} : Ties keys a b ↔ Ties keys b a := by
  rw [← compareByKeys_eq_eq, ← compareByKeys_eq_eq]
  exact Std.OrientedCmp.eq_comm

theorem Ties.trans {keys : List FieldPath} {a b c : Json} (hab : Ties keys a b)
    (hbc : Ties keys b c) : Ties keys a c := by
  rw [← compareByKeys_eq_eq] at *
  exact Std.TransCmp.eq_trans hab hbc

theorem Ties.refl (keys : List FieldPath) (a : Json) : Ties keys a a :=
  compareByKeys_eq_eq.mp Std.ReflCmp.compare_self

theorem ties_of_not_precedes {keys : List FieldPath} {a b : Json} (hab : ¬ Precedes keys a b)
    (hba : ¬ Precedes keys b a) : Ties keys a b := by
  rw [← compareByKeys_eq_lt] at hab hba
  rw [← compareByKeys_eq_eq]
  cases hcompare : compareByKeys keys a b with
  | eq => rfl
  | lt => exact absurd hcompare hab
  | gt => exact absurd (Std.OrientedCmp.gt_iff_lt.mp hcompare) hba

theorem not_precedes_iff {keys : List FieldPath} {a b : Json} :
    ¬ Precedes keys b a ↔ compareByKeys keys a b ≠ .gt := by
  rw [← compareByKeys_eq_lt, Ne, Std.OrientedCmp.gt_iff_lt]

/-! ## Stable sorts -/

/-- The records in ascending order of the keys, and those that tie in the order they had. -/
structure IsStableSort (keys : List FieldPath) (records sorted : List Json) : Prop where
  perm : sorted.Perm records
  ascending : sorted.Pairwise fun a b => ¬ Precedes keys b a
  ties_in_order : ∀ record,
    (sorted.filter fun other => Ties keys record other)
      = records.filter fun other => Ties keys record other

/-- Ascending lists of the same records, with those that tie in the same order, are one list. -/
theorem eq_of_ascending {keys : List FieldPath} :
    ∀ {xs ys : List Json}, xs.Perm ys →
      xs.Pairwise (fun a b => ¬ Precedes keys b a) →
      ys.Pairwise (fun a b => ¬ Precedes keys b a) →
      (∀ record, (xs.filter fun other => Ties keys record other)
        = ys.filter fun other => Ties keys record other) → xs = ys
  | [], ys, hperm, _, _, _ => hperm.nil_eq
  | x :: xs, [], hperm, _, _, _ => absurd hperm.eq_nil (List.cons_ne_nil x xs)
  | x :: xs, y :: ys, hperm, hxs, hys, hties => by
      obtain ⟨hx, hxs'⟩ := List.pairwise_cons.mp hxs
      obtain ⟨hy, hys'⟩ := List.pairwise_cons.mp hys
      -- Each of the two heads is somewhere in the other list, so neither precedes the other.
      have hirrefl : ∀ a, ¬ Precedes keys a a := fun a =>
        not_precedes_iff.mpr (by simp [Std.ReflCmp.compare_self])
      have hyx : ¬ Precedes keys y x := by
        rcases List.mem_cons.mp (hperm.mem_iff.mpr List.mem_cons_self) with rfl | hmem
        · exact hirrefl y
        · exact hx y hmem
      have hxy : ¬ Precedes keys x y := by
        rcases List.mem_cons.mp (hperm.mem_iff.mp List.mem_cons_self) with rfl | hmem
        · exact hirrefl x
        · exact hy x hmem
      have htie := ties_of_not_precedes hxy hyx
      obtain rfl : x = y := by
        have hhead := hties x
        simp only [List.filter_cons, Ties.refl, htie, decide_true, if_true] at hhead
        exact (List.cons.inj hhead).1
      have hrest : ∀ record, (xs.filter fun other => Ties keys record other)
          = ys.filter fun other => Ties keys record other := by
        intro record
        have hrecord := hties record
        simp only [List.filter_cons] at hrecord
        split at hrecord
        · exact (List.cons.inj hrecord).2
        · exact hrecord
      exact congrArg (x :: ·) (eq_of_ascending ((List.perm_cons x).mp hperm) hxs' hys' hrest)

theorem IsStableSort.unique {keys : List FieldPath} {records xs ys : List Json}
    (hxs : IsStableSort keys records xs) (hys : IsStableSort keys records ys) : xs = ys :=
  eq_of_ascending (hxs.perm.trans hys.perm.symm) hxs.ascending hys.ascending
    fun record => (hxs.ties_in_order record).trans (hys.ties_in_order record).symm

/-- The records of one tie class are in ascending order wherever they stand. -/
theorem pairwise_filter_ties (keys : List FieldPath) (record : Json) (records : List Json) :
    (records.filter fun other => Ties keys record other).Pairwise fun a b =>
      compareByKeys keys a b != .gt := by
  rw [List.pairwise_filter]
  refine List.pairwise_of_forall fun a b ha hb => ?_
  have hab := (ties_comm.mp (of_decide_eq_true ha)).trans (of_decide_eq_true hb)
  rw [compareByKeys_eq_eq.mpr hab]
  rfl

theorem isStableSort_sortRecords (keys : List FieldPath) (records : List Json) :
    IsStableSort keys records (sortRecords keys records) := by
  have htrans : ∀ a b c : Json, (compareByKeys keys a b != .gt) = true →
      (compareByKeys keys b c != .gt) = true → (compareByKeys keys a c != .gt) = true := by
    simp only [bne_iff_ne, Ordering.ne_gt_iff_isLE]
    exact fun _ _ _ => Std.TransCmp.isLE_trans
  have htotal : ∀ a b : Json,
      ((compareByKeys keys a b != .gt) || (compareByKeys keys b a != .gt)) = true := by
    intro a b
    have hswap : compareByKeys keys b a = (compareByKeys keys a b).swap :=
      Std.OrientedCmp.eq_swap
    rw [hswap]
    cases compareByKeys keys a b <;> rfl
  have hperm := List.mergeSort_perm records fun a b => compareByKeys keys a b != .gt
  constructor
  · exact hperm
  · refine (List.pairwise_mergeSort htrans htotal records).imp fun h => ?_
    exact not_precedes_iff.mpr (bne_iff_ne.mp h)
  · intro record
    -- The tie class is an ascending sublist, which a stable sort leaves as a sublist.
    have hclass := List.sublist_mergeSort htrans htotal (pairwise_filter_ties keys record records)
      List.filter_sublist
    have hsub := hclass.filter fun other => decide (Ties keys record other)
    rw [List.filter_filter] at hsub
    simp only [Bool.and_self] at hsub
    exact (hsub.eq_of_length ((hperm.filter _).length_eq.symm)).symm

/-! ## Sorting by several keys -/

/-- A tie on several keys is a tie on the first and on the others. -/
theorem filter_ties_cons (key : FieldPath) (rest : List FieldPath) (record : Json)
    (records : List Json) :
    (records.filter fun other => Ties (key :: rest) record other)
      = (records.filter fun other => Ties [key] record other).filter fun other =>
          Ties rest record other := by
  rw [List.filter_filter]
  refine List.filter_congr fun other _ => ?_
  rw [Bool.and_comm, ← Bool.decide_and]
  simp only [Ties, List.forall_mem_cons, List.not_mem_nil, false_implies, implies_true, and_true]

/-- Sorting by a first key what is sorted by the others sorts by all of them. -/
theorem IsStableSort.cons {key : FieldPath} {rest : List FieldPath}
    {records inner sorted : List Json} (hinner : IsStableSort rest records inner)
    (hsorted : IsStableSort [key] inner sorted) :
    IsStableSort (key :: rest) records sorted := by
  constructor
  · exact hsorted.perm.trans hinner.perm
  · refine List.pairwise_iff_forall_sublist.mpr fun {a b} hab hprecedes => ?_
    rcases precedes_cons.mp hprecedes with hlt | ⟨heq, hrest⟩
    · have hkey : Precedes [key] b a := precedes_cons.mpr (Or.inl hlt)
      exact List.pairwise_iff_forall_sublist.mp hsorted.ascending hab hkey
    · -- The first key leaves the two equal, so they stand as they stood before.
      have htie : Ties [key] a b := ties_comm.mp (List.forall_mem_singleton.mpr heq)
      have hclass := hab.filter fun other => decide (Ties [key] a other)
      rw [hsorted.ties_in_order a] at hclass
      simp only [List.filter_cons, List.filter_nil, Ties.refl, htie, decide_true, if_true] at hclass
      have hinside : List.Sublist [a, b] inner := hclass.trans List.filter_sublist
      exact List.pairwise_iff_forall_sublist.mp hinner.ascending hinside hrest
  · intro record
    calc (sorted.filter fun other => Ties (key :: rest) record other)
        = (inner.filter fun other => Ties [key] record other).filter fun other =>
            Ties rest record other := by
          rw [filter_ties_cons, hsorted.ties_in_order]
      _ = (inner.filter fun other => Ties rest record other).filter fun other =>
            Ties [key] record other := by
          rw [List.filter_filter, List.filter_filter]
          exact List.filter_congr fun other _ => Bool.and_comm _ _
      _ = records.filter fun other => Ties (key :: rest) record other := by
          rw [hinner.ties_in_order, filter_ties_cons key rest, List.filter_filter,
            List.filter_filter]
          exact List.filter_congr fun other _ => Bool.and_comm _ _

theorem sortRecords_cons (key : FieldPath) (rest : List FieldPath) (records : List Json) :
    sortRecords (key :: rest) records = sortRecords [key] (sortRecords rest records) :=
  (isStableSort_sortRecords (key :: rest) records).unique
    ((isStableSort_sortRecords rest records).cons (isStableSort_sortRecords [key] _))

/-- Records that are in order already are their own stable sort. -/
theorem isStableSort_self {keys : List FieldPath} {records : List Json}
    (h : records.Pairwise fun a b => ¬ Precedes keys b a) : IsStableSort keys records records :=
  ⟨List.Perm.refl records, h, fun _ => rfl⟩

theorem sortRecords_of_ascending {keys : List FieldPath} {records : List Json}
    (h : records.Pairwise fun a b => ¬ Precedes keys b a) : sortRecords keys records = records :=
  (isStableSort_sortRecords keys records).unique (isStableSort_self h)

theorem sortRecords_eq_foldr (records : List Json) :
    ∀ keys : List FieldPath,
      sortRecords keys records
        = keys.foldr (fun key sorted => sortRecords [key] sorted) records
  | [] => sortRecords_of_ascending (List.pairwise_of_forall fun _ _ hprecedes => by
      cases compareByKeys_eq_lt.mpr hprecedes)
  | key :: rest => by
      rw [sortRecords_cons, sortRecords_eq_foldr records rest, List.foldr_cons]

/-- **Sorting yields the one stable sort.** Records are compared by a total preorder,
the keys deciding one after the other, and sorting gives the only list that has
the same records in ascending order with those that tie as they stood. So the
keys may as well be sorted by one at a time, the last first, and sorting again
changes nothing. -/
theorem sortRecords_unique_stable_sort (keys : List FieldPath) (records : List Json) :
    Std.TransCmp (compareByKeys keys)
    ∧ (∀ sorted, IsStableSort keys records sorted ↔ sorted = sortRecords keys records)
    ∧ sortRecords keys records
        = keys.foldr (fun key sorted => sortRecords [key] sorted) records
    ∧ sortRecords keys (sortRecords keys records) = sortRecords keys records := by
  have hsorted := isStableSort_sortRecords keys records
  refine ⟨transCmp_compareByKeys keys, fun sorted => ⟨fun h => h.unique hsorted, ?_⟩,
    sortRecords_eq_foldr records keys, sortRecords_of_ascending hsorted.ascending⟩
  rintro rfl
  exact hsorted

end RecordQuery
