import RecordQuery.Arrangement.Basic
import RecordQuery.Proofs.Arrangement.Insertion
import RecordQuery.Proofs.FieldPath.Composition

/-!
# Room for arrays

Cutting a record down fails where an array has no room for an index, and
only there. Where it does not fail the room has no bearing on what comes
out (`project?_eq_some_iff`), so everything that is known of `project`
holds of what a run gives.

There is always room for paths of which no segment is an index beyond what
an array can have (`isSome_project?`). For a path that is built from
nothing this is also needed (`hasRoom_makeWay_null`), since every index
on it makes an array.
-/

namespace RecordQuery

variable {record : Json} {keys : List FieldPath}

/-! ## What comes out -/

theorem pick?_eq_some_iff {picked next : Json} {key : FieldPath} :
    pick? record picked key = some next
      ↔ (record.follow? key.segments = none ∨ Json.hasRoom key.segments picked = true)
        ∧ next = pick record picked key := by
  rw [pick?, FieldPath.toJson?_resolve, Option.ite_none_right_eq_some, Bool.or_eq_true,
    Option.isNone_iff_eq_none, Option.some.injEq, eq_comm (a := next)]

theorem foldl_pick_of_foldlM_pick? :
    ∀ {keys : List FieldPath} {picked projected : Json},
      keys.foldlM (pick? record) picked = some projected →
      projected = keys.foldl (pick record) picked
  | [], _, _, h => (Option.some.inj h).symm
  | key :: rest, _, _, h => by
      rw [List.foldlM_cons] at h
      obtain ⟨next, hnext, hrest⟩ := Option.bind_eq_some_iff.mp h
      rw [List.foldl_cons, ← (pick?_eq_some_iff.mp hnext).2]
      exact foldl_pick_of_foldlM_pick? hrest

/-- What a record is cut down to does not depend on the room there is. -/
theorem eq_project_of_project? {projected : Json} (h : project? keys record = some projected) :
    projected = project keys record := by
  rw [project?] at h
  rw [project]
  by_cases hkeys : keys.isEmpty = true
  · rw [if_pos hkeys] at h ⊢
    exact (Option.some.inj h).symm
  · rw [if_neg hkeys] at h ⊢
    exact foldl_pick_of_foldlM_pick? h

theorem project?_eq_some_iff {projected : Json} :
    project? keys record = some projected
      ↔ (project? keys record).isSome ∧ projected = project keys record := by
  constructor
  · intro h
    exact ⟨Option.isSome_of_eq_some h, eq_project_of_project? h⟩
  · rintro ⟨hsome, rfl⟩
    obtain ⟨projected, h⟩ := Option.isSome_iff_exists.mp hsome
    rw [h, eq_project_of_project? h]

theorem selectRecords?_eq_some :
    ∀ {records : List Json}, (∀ record ∈ records, (project? keys record).isSome) →
      selectRecords? keys records = some (selectRecords keys records)
  | [], _ => rfl
  | record :: rest, h => by
      obtain ⟨hrecord, hrest⟩ := List.forall_mem_cons.mp h
      rw [selectRecords?, List.mapM_cons, project?_eq_some_iff.mpr ⟨hrecord, rfl⟩,
        ← selectRecords?, selectRecords?_eq_some hrest]
      rfl

theorem selectRecords?_eq_none :
    ∀ {records : List Json}, (∃ record ∈ records, project? keys record = none) →
      selectRecords? keys records = none
  | record :: rest, ⟨other, hmem, hnone⟩ => by
      rw [selectRecords?, List.mapM_cons]
      rcases List.mem_cons.mp hmem with rfl | hmem
      · rw [hnone]
        rfl
      · rw [← selectRecords?, selectRecords?_eq_none ⟨other, hmem, hnone⟩]
        cases project? keys record <;> rfl

theorem Keys.arrange?_eq_some {keys : Keys} {records : List Json}
    (h : ∀ record ∈ records, (project? keys.select record).isSome) :
    keys.arrange? records = some (keys.arrange records) := by
  rw [arrange?, selectRecords?_eq_some h]
  rfl

theorem Keys.arrange?_eq_none {keys : Keys} {records : List Json}
    (h : ∃ record ∈ records, project? keys.select record = none) :
    keys.arrange? records = none := by
  rw [arrange?, selectRecords?_eq_none h]
  rfl

/-! ## Where there is room -/

namespace Json

/-- No segment is an index beyond what an array can have. -/
def IsAddressable (path : List String) : Prop :=
  ∀ segment ∈ path, ∀ index ∈ digitIndex? segment, index < maxLength

instance (path : List String) : Decidable (IsAddressable path) :=
  inferInstanceAs (Decidable (∀ segment ∈ path, ∀ index ∈ digitIndex? segment, index < maxLength))

theorem isAddressable_cons {segment : String} {rest : List String} :
    IsAddressable (segment :: rest)
      ↔ (∀ index ∈ digitIndex? segment, index < maxLength) ∧ IsAddressable rest :=
  List.forall_mem_cons

theorem hasRoom_object (segment : String) (rest : List String) (members : Members) :
    hasRoom (segment :: rest) (.object members)
      = hasRoom rest (makeWay rest ((Members.get? segment members).getD .null)) := by
  rw [hasRoom]

theorem hasRoom_array_of_index {segment : String} {index : Nat}
    (h : digitIndex? segment = some index) (rest : List String) (items : List Json) :
    hasRoom (segment :: rest) (.array items)
      = ((index < items.length || index < maxLength)
        && hasRoom rest (makeWay rest (items[index]?.getD .null))) := by
  rw [hasRoom, h]

theorem hasRoom_of_isAddressable :
    ∀ {path : List String}, IsAddressable path → ∀ json, hasRoom path json = true
  | [], _, _ => by rw [hasRoom]
  | segment :: rest, h, .object members => by
      rw [hasRoom_object]
      exact hasRoom_of_isAddressable (isAddressable_cons.mp h).2 _
  | segment :: rest, h, .array items => by
      obtain ⟨hindex, hrest⟩ := isAddressable_cons.mp h
      cases hdigits : digitIndex? segment with
      | none => rw [hasRoom, hdigits]
      | some index =>
          rw [hasRoom_array_of_index hdigits, hasRoom_of_isAddressable hrest,
            decide_eq_true (hindex index hdigits), Bool.or_true]
          rfl
  | _ :: _, _, .null | _ :: _, _, .bool _ | _ :: _, _, .number _ | _ :: _, _, .string _ => rfl

/-- A path that is built from nothing makes an array for every index on it. -/
theorem hasRoom_makeWay_null {path : List String} :
    hasRoom path (makeWay path .null) = true ↔ IsAddressable path := by
  induction path with
  | nil => exact ⟨fun _ _ h => absurd h List.not_mem_nil, fun _ => by rw [hasRoom]⟩
  | cons segment rest ih =>
      have hway : makeWay (segment :: rest) .null = containerFor segment := rfl
      rw [hway, isAddressable_cons, ← ih]
      cases hdigits : digitIndex? segment with
      | none =>
          rw [containerFor_of_not_index hdigits, hasRoom_object]
          exact ⟨fun h => ⟨fun _ hindex => absurd hindex (Option.not_mem_none _), h⟩, And.right⟩
      | some index =>
          rw [containerFor_of_index hdigits, hasRoom_array_of_index hdigits, Bool.and_eq_true,
            Bool.or_eq_true, decide_eq_true_iff, decide_eq_true_iff]
          refine and_congr_left fun _ => ⟨?_, fun h => .inr (h index rfl)⟩
          rintro (h | h) other hother
          · exact absurd h (Nat.not_lt_zero index)
          · exact Option.some.inj hother ▸ h

end Json

theorem pick_object (record : Json) (members : Members) (key : FieldPath) :
    ∃ next, pick record (.object members) key = .object next := by
  obtain ⟨segment, rest, hsegments⟩ := List.exists_cons_of_ne_nil key.segments_ne_nil
  unfold pick
  split
  · rw [hsegments, Json.insertAt_object]
    exact ⟨_, rfl⟩
  · exact ⟨members, rfl⟩

/-- There is room for a key in a record that is being built if its segments behind the first are
addressable; the first names a member. -/
theorem hasRoom_of_isAddressable_tail {key : FieldPath}
    (h : Json.IsAddressable key.segments.tail) (members : Members) :
    Json.hasRoom key.segments (.object members) = true := by
  obtain ⟨segment, rest, hsegments⟩ := List.exists_cons_of_ne_nil key.segments_ne_nil
  rw [hsegments] at h ⊢
  rw [Json.hasRoom_object]
  exact Json.hasRoom_of_isAddressable h _

/-- A record can be cut down to keys of which none asks for an array that there cannot be. -/
theorem isSome_project? (h : ∀ key ∈ keys, Json.IsAddressable key.segments.tail)
    (record : Json) : (project? keys record).isSome := by
  have hfold : ∀ {keys : List FieldPath}, (∀ key ∈ keys, Json.IsAddressable key.segments.tail) →
      ∀ members, (keys.foldlM (pick? record) (.object members)).isSome := by
    intro keys
    induction keys with
    | nil => exact fun _ _ => rfl
    | cons key rest ih =>
        intro h members
        obtain ⟨hkey, hrest⟩ := List.forall_mem_cons.mp h
        obtain ⟨next, hnext⟩ := pick_object record members key
        have hpick : pick? record (.object members) key = some (.object next) :=
          pick?_eq_some_iff.mpr ⟨.inr (hasRoom_of_isAddressable_tail hkey members), hnext.symm⟩
        rw [List.foldlM_cons, hpick]
        exact ih hrest next
  rw [project?]
  split
  · rfl
  · exact hfold h []

/-- A record can be cut down to a key that leads somewhere in it exactly if no segment of the key
behind the first is an index beyond what an array can have. -/
theorem isSome_project?_singleton {key : FieldPath} {value : Json}
    (h : record.follow? key.segments = some value) :
    (project? [key] record).isSome ↔ Json.IsAddressable key.segments.tail := by
  obtain ⟨segment, rest, hsegments⟩ := List.exists_cons_of_ne_nil key.segments_ne_nil
  have hproject : project? [key] record = pick? record (.object []) key := by
    have hstep : project? [key] record = (pick? record (.object []) key).bind some := rfl
    rw [hstep, Option.bind_fun_some]
  have hroom : Json.hasRoom key.segments (.object []) = true
      ↔ Json.IsAddressable key.segments.tail := by
    rw [hsegments, Json.hasRoom_object]
    exact Json.hasRoom_makeWay_null
  rw [hproject, Option.isSome_iff_exists, ← hroom]
  simp only [pick?_eq_some_iff, h, reduceCtorEq, false_or, exists_and_left, exists_eq, and_true]

end RecordQuery
