import RecordQuery.Proofs.Arrangement.Partition
import RecordQuery.Proofs.Arrangement.Room
import RecordQuery.Query.Basic

/-!
# The runs of a query agree

A query is put to records in five ways, each with a loop of its own: it
becomes a predicate, it is put to one record, and it filters, counts or
arranges many. Either all of them fail with one error, whatever records
they are given (`FailsWith`), or none fails and one predicate says what
all of them keep (`KeepsBy`): filtering is skipped where the predicate is
trivial, but then nothing would have been dropped (`filter_eq`), and
arranging loses and doubles no record on its way through projection,
sorting and grouping (`perm_leaves_arrange`).
-/

namespace RecordQuery

/-! ## What filtering and arranging keep -/

namespace Predicate

theorem test_of_isTrivial {p : Predicate} (h : p.expression.isTrivial = true) (record : Json) :
    p.test record = true := by
  rw [test, Expr.isTrivial_iff.mp h, Expr.eval]

/-- Filtering keeps what the test says, asked or not. -/
theorem filter_eq (p : Predicate) (records : List Json) :
    p.filter records = records.filter p.test := by
  rw [filter]
  split
  · rename_i htrivial
    exact (List.filter_eq_self.mpr fun record _ => test_of_isTrivial htrivial record).symm
  · rfl

end Predicate

theorem perm_leaves_arrange (keys : Keys) (records : List Json) :
    (keys.arrange records).leaves.Perm (records.map (project keys.select)) :=
  (perm_leaves_groupRecords keys.group _).trans (List.mergeSort_perm _ _)

/-- Records that can all be cut down are arranged without loss. -/
theorem exists_arrange?_of_room {keys : Keys} {records : List Json}
    (h : ∀ record ∈ records, (project? keys.select record).isSome) :
    ∃ output, keys.arrange? records = some output
      ∧ (output.leaves.map some).Perm (records.map (project? keys.select))
      ∧ output.leaves.length = records.length := by
  have hperm := perm_leaves_arrange keys records
  have hprojections : (records.map (project keys.select)).map some
      = records.map (project? keys.select) := by
    rw [List.map_map]
    exact List.map_congr_left fun record hrecord =>
      (project?_eq_some_iff.mpr ⟨h record hrecord, rfl⟩).symm
  refine ⟨keys.arrange records, Keys.arrange?_eq_some h, hprojections ▸ hperm.map some, ?_⟩
  rw [hperm.length_eq, List.length_map]

namespace Query

/-! ## All runs at once -/

/-- Every run fails with the error. -/
structure FailsWith (q : Query) (e : QueryError) : Prop where
  predicate : q.predicate = .error e
  matchesRecord : ∀ record, q.matchesRecord record = .error e
  filter : ∀ records, q.filter records = .error e
  count : ∀ records, q.count records = .error e
  get : ∀ records, q.get records = .error e

/-- No run fails, and every run keeps the records of which the predicate holds. The kept records
are arranged if each of them can be cut down to the select keys, and otherwise there is no
result. -/
structure KeepsBy (q : Query) (p : Predicate) : Prop where
  predicate : q.predicate = .ok p
  matchesRecord : ∀ record, q.matchesRecord record = .ok (p.test record)
  filter : ∀ records, q.filter records = .ok (records.filter p.test)
  count : ∀ records, q.count records = .ok (records.filter p.test).length
  get : ∀ records,
    (∀ record ∈ records.filter p.test, (project? q.keys.select record).isSome) →
    ∃ output, q.get records = .ok (some output)
      ∧ (output.leaves.map some).Perm ((records.filter p.test).map (project? q.keys.select))
      ∧ output.leaves.length = (records.filter p.test).length
  get_of_no_room : ∀ records,
    (∃ record ∈ records.filter p.test, project? q.keys.select record = none) →
    q.get records = .ok none

theorem failsWith_of_predicate {q : Query} {e : QueryError} (h : q.predicate = .error e) :
    q.FailsWith e where
  predicate := h
  matchesRecord record := by
    rw [Query.matchesRecord, h]
    rfl
  filter records := by
    rw [Query.filter, h]
    rfl
  count records := by
    rw [Query.count, h]
    rfl
  get records := by
    rw [Query.get, h]
    rfl

theorem get_of_predicate {q : Query} {p : Predicate} (h : q.predicate = .ok p)
    (records : List Json) : q.get records = .ok (q.keys.arrange? (records.filter p.test)) := by
  rw [Query.get, h, ← p.filter_eq]
  rfl

theorem keepsBy_of_predicate {q : Query} {p : Predicate} (h : q.predicate = .ok p) :
    q.KeepsBy p where
  predicate := h
  matchesRecord record := by
    rw [Query.matchesRecord, h]
    rfl
  filter records := by
    rw [Query.filter, h, ← p.filter_eq]
    rfl
  count records := by
    rw [Query.count, h, ← List.countP_eq_length_filter]
    rfl
  get records hroom := by
    obtain ⟨output, harrange, hleaves⟩ := exists_arrange?_of_room hroom
    exact ⟨output, by rw [get_of_predicate h, harrange], hleaves⟩
  get_of_no_room records hnone := by
    rw [get_of_predicate h, Keys.arrange?_eq_none hnone]

/-- **The runs of a query agree.** All of them fail with one error that does not
depend on the records, or none of them fails: then filtering keeps, in their
order, exactly the records that match, counting gives their number, and the
records at the leaves of the arranged result are their projections, each as
often as it was kept. Only where one of these records cannot be cut down there
is no result to arrange, and that takes a select key with an index beyond what
an array can have. -/
theorem failsWith_or_keepsBy (q : Query) :
    ((∃ e, q.FailsWith e) ∨ ∃ p, q.KeepsBy p)
    ∧ ((∀ key ∈ q.keys.select, Json.IsAddressable key.segments.tail) →
      ∀ records, q.get records ≠ .ok none) := by
  cases h : q.predicate with
  | error e =>
      have hfails := failsWith_of_predicate h
      exact ⟨.inl ⟨e, hfails⟩, fun _ records hget => nomatch (hfails.get records).symm.trans hget⟩
  | ok p =>
      have hkeeps := keepsBy_of_predicate h
      refine ⟨.inr ⟨p, hkeeps⟩, fun hkeys records hnone => ?_⟩
      obtain ⟨output, hget, -⟩ := hkeeps.get records fun record _ => isSome_project? hkeys record
      cases hget.symm.trans hnone

/-- A query without a condition keeps every record. -/
theorem predicate_of_keys (keys : Keys) :
    ({ keys } : Query).predicate = .ok ⟨.literal true⟩ := by
  have hcondition : ({ keys } : Query).predicate = Predicate.ofExpr (.literal true) {} := rfl
  rw [hcondition, Predicate.ofExpr, if_neg (by decide)]
  rfl

/-- Both an array and its element are selected, and no index is beyond an array. -/
theorem failsWith_or_keepsBy_elements :
    let q : Query := { keys := { select := [⟨"a.0"⟩, ⟨"a"⟩], group := [⟨"a.length"⟩] } }
    (∀ key ∈ q.keys.select, Json.IsAddressable key.segments.tail)
      ∧ (∃ p, q.KeepsBy p) ∧ ∀ records, q.get records ≠ .ok none := by
  intro q
  have hkeys : ∀ key ∈ q.keys.select, Json.IsAddressable key.segments.tail := by decide +kernel
  obtain ⟨⟨e, hfails⟩ | hkeeps, hget⟩ := failsWith_or_keepsBy q
  · cases (predicate_of_keys q.keys).symm.trans hfails.predicate
  · exact ⟨hkeys, hkeeps, hget hkeys⟩

/-- A member named by the largest index that can be read: the record is kept and counted, but
cannot be cut down, though a later key would put the member back. -/
theorem get_without_result_of_index :
    let member : Json := .object [("18446744073709551615", .bool true)]
    let record : Json := .object [("a", member)]
    let q : Query := { keys := { select := [⟨"a.18446744073709551615"⟩, ⟨"a"⟩] } }
    q.filter [record] = .ok [record] ∧ q.count [record] = .ok 1
      ∧ project q.keys.select record = record ∧ q.get [record] = .ok none := by
  intro member record q
  have hkeeps := keepsBy_of_predicate (predicate_of_keys q.keys)
  have hnone : project? q.keys.select record = none := by decide +kernel
  exact ⟨hkeeps.filter [record], hkeeps.count [record], by decide +kernel,
    hkeeps.get_of_no_room [record] ⟨record, List.mem_singleton_self record, hnone⟩⟩

end Query

end RecordQuery
