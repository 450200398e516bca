import RecordQuery.Proofs.Arrangement.Room

/-!
# Arrays of a single key

A key that is selected alone is a path that is built from nothing: every
segment makes the one container it goes through (`Json.fill_null_cons`),
and the path leads through these again to the value
(`Json.follow?_fill_null`). So what stands at a place of the projection
is settled by the segment behind it, whatever the record has there.

An array of the record comes back as an array if projection takes that
segment for the index that resolution takes it for. The two readings
differ over one character (`digitIndex?_of_readIndex?`): resolution reads
an index behind a plus sign, while projection makes an object for it.
-/

namespace RecordQuery

/-! ## Two readings of an index -/

theorem Text.isDigit_of_digitValue? {c : Char} {value : Nat} (h : digitValue? c = some value)
    (hvalue : value < 10) : c.isDigit = true := by
  unfold digitValue? at h
  split at h
  · assumption
  · -- A letter counts ten or more.
    split at h
    · cases h
      omega
    · split at h
      · cases h
        omega
      · cases h

theorem Text.isDigit_of_readRow? : ∀ {digits : List Char} {before n : Nat},
    readRow? 10 before digits = some n → ∀ c ∈ digits, c.isDigit = true
  | [], _, _, _ => fun _ h => absurd h List.not_mem_nil
  | c :: digits, before, n, h => by
      rw [readRow?] at h
      split at h
      · cases h
      · rename_i value hvalue
        obtain ⟨hlt, hrest⟩ := Option.ite_none_right_eq_some.mp h
        exact List.forall_mem_cons.mpr
          ⟨isDigit_of_digitValue? hvalue hlt, isDigit_of_readRow? hrest⟩

/-- What resolution reads as an index has digits alone, but for a plus sign before them. -/
theorem isDigit_of_readIndex? {segment : String} {index : Nat}
    (h : FieldPath.readIndex? segment = some index) :
    ∀ c ∈ Text.dropPlus segment.toList, c.isDigit = true :=
  Text.isDigit_of_readRow? (Option.ite_none_left_eq_some.mp h).2

/-- Of the indices that fit 64 bits, projection takes those without a plus sign. -/
theorem digitIndex?_of_readIndex? {segment : String} {index : Nat}
    (h : FieldPath.readIndex? segment = some index) (hindex : index < 2 ^ 64) :
    digitIndex? segment = if ['+'] <+: segment.toList then none else some index := by
  have hdigits := isDigit_of_readIndex? h
  rw [digitIndex?]
  by_cases hplus : ['+'] <+: segment.toList
  · obtain ⟨rest, htext⟩ := hplus
    rw [← htext]
    rfl
  · have hrow : Text.dropPlus segment.toList = segment.toList := by
      unfold Text.dropPlus
      split
      · rename_i rest htext
        exact absurd ⟨rest, htext.symm⟩ hplus
      · rfl
    rw [hrow] at hdigits
    have hword : Text.readWord? 10 segment.toList = some index :=
      Option.filter_eq_some_iff.mpr ⟨h, decide_eq_true hindex⟩
    rw [if_neg hplus, if_pos (List.all_eq_true.mpr hdigits), hword]

namespace Json

/-! ## A path built from nothing -/

theorem set_padTo_nil (index : Nat) (item : Json) :
    (padTo index []).set index item = List.replicate index .null ++ [item] := by
  have hpad : padTo index [] = List.replicate index .null ++ [.null] := by
    rw [← List.replicate_succ']
    rfl
  have hlength : (List.replicate index Json.null).length = index := List.length_replicate
  rw [hpad, List.set_append_right index item (Nat.le_of_eq hlength), hlength, Nat.sub_self]
  rfl

theorem getElem?_replicate_concat (index : Nat) (item : Json) :
    (List.replicate index Json.null ++ [item])[index]? = some item := by
  rw [← set_padTo_nil, getElem?_set_padTo, if_pos rfl]

/-- A segment makes the container that it goes through, with nothing in it but what lies on the
way, and with the elements before an index. -/
theorem fill_null_cons (value : Json) (segment : String) (rest : List String) :
    fill value (segment :: rest) .null
      = match digitIndex? segment with
        | some index => .array (List.replicate index .null ++ [fill value rest .null])
        | none => .object [(segment, fill value rest .null)] := by
  rw [fill_of_not_isContainer value segment rest rfl]
  cases hindex : digitIndex? segment with
  | none =>
      rw [containerFor_of_not_index hindex, insertAt_object]
      rfl
  | some index =>
      rw [containerFor_of_index hindex, insertAt_array_of_index value hindex, set_padTo_nil]
      rfl

/-- A path that is built from nothing leads on to the rest of it. -/
theorem follow?_fill_null (value : Json) (place rest : List String) :
    (fill value (place ++ rest) .null).follow? place = some (fill value rest .null) := by
  induction place with
  | nil => rfl
  | cons segment place ih =>
      rw [List.cons_append, fill_null_cons]
      cases hindex : digitIndex? segment with
      | none =>
          dsimp only
          rw [follow?_object, Members.get?, if_pos rfl, Option.bind_some, ih]
      | some index =>
          dsimp only
          rw [follow?_array_of_index _ (readIndex?_of_digitIndex? hindex),
            getElem?_replicate_concat, Option.bind_some, ih]

theorem follow?_fill_null_self (value : Json) (path : List String) :
    (fill value path .null).follow? path = some value := by
  have hbuilt := follow?_fill_null value path []
  rwa [List.append_nil] at hbuilt

/-- An index makes an array, or an object if it is written with a plus sign. -/
theorem fill_null_of_readIndex? (value : Json) {segment : String} {index : Nat}
    (h : FieldPath.readIndex? segment = some index) (hindex : index < 2 ^ 64)
    (rest : List String) :
    fill value (segment :: rest) .null
      = if ['+'] <+: segment.toList then .object [(segment, fill value rest .null)]
        else .array (List.replicate index .null ++ [fill value rest .null]) := by
  rw [fill_null_cons, digitIndex?_of_readIndex? h hindex]
  by_cases hplus : ['+'] <+: segment.toList
  · rw [if_pos hplus, if_pos hplus]
  · rw [if_neg hplus, if_neg hplus]

/-- A path goes through an array by an index, unless it asks for the length. -/
theorem exists_index_of_follow?_array {items : List Json} {segment : String} {rest : List String}
    {value : Json} (h : (Json.array items).follow? (segment :: rest) = some value)
    (hsegment : segment ≠ "length") :
    ∃ index item, FieldPath.readIndex? segment = some index ∧ items[index]? = some item
      ∧ item.follow? rest = some value := by
  cases hindex : FieldPath.readIndex? segment with
  | none =>
      rw [follow?_array_of_not_index items hindex] at h
      exact absurd (lengthAt?_eq_some.mp h).1.1 hsegment
  | some index =>
      rw [follow?_array_of_index items hindex] at h
      obtain ⟨item, hitem, hrest⟩ := Option.bind_eq_some_iff.mp h
      exact ⟨index, item, rfl, hitem, hrest⟩

end Json

/-! ## The projection -/

/-- The projection onto one key that leads to a value is the path of the key, built inside an
object. -/
theorem project_singleton {record value : Json} {key : FieldPath} {segment : String}
    {rest : List String} (hsegments : key.segments = segment :: rest)
    (hvalue : record.follow? key.segments = some value) :
    project [key] record = .object [(segment, Json.fill value rest .null)] := by
  rw [project_eq_putAll (List.cons_ne_nil _ _), found_cons hvalue, hsegments]
  exact Json.insertAt_object value segment rest []

theorem follow?_project_singleton {record value : Json} {key : FieldPath}
    {place rest : List String} (hsegments : key.segments = place ++ rest) (hplace : place ≠ [])
    (hvalue : record.follow? key.segments = some value) :
    (project [key] record).follow? place = some (Json.fill value rest .null) := by
  obtain ⟨segment, others, rfl⟩ := List.exists_cons_of_ne_nil hplace
  rw [project_singleton hsegments hvalue, Json.follow?_object, Members.get?, if_pos rfl,
    Option.bind_some]
  exact Json.follow?_fill_null value others rest

/-- **A key that is selected alone rebuilds the arrays it goes through.** There is a projection
onto it exactly if no segment behind the first is an index beyond what an array can have, and the
key leads to its value in the projection too. At each place where it goes through an array of the
record, and does not ask for its length, the projection has an array that ends at the index by
which resolution goes on, with what leads on to the value there and `null` before it. Only if that
index is written with a plus sign it has an object instead, with the segment for a name. (No array
of a record has more elements than 64 bits can count.) -/
theorem project_key_rebuilds_arrays {members : Members} {key : FieldPath} {value : Json}
    (hvalue : (key.resolve (.object members)).toJson? = some value) :
    ((project? [key] (.object members)).isSome ↔ Json.IsAddressable key.segments.tail)
    ∧ ∀ projected, project? [key] (.object members) = some projected →
      (key.resolve projected).toJson? = some value
      ∧ ∀ place segment rest items, key.segments = place ++ segment :: rest →
        (Json.object members).follow? place = some (.array items) →
        items.length ≤ 2 ^ 64 → segment ≠ "length" →
        ∃ index item inner, FieldPath.readIndex? segment = some index
          ∧ items[index]? = some item ∧ item.follow? rest = some value
          ∧ inner.follow? rest = some value
          ∧ projected.follow? place
              = some (if ['+'] <+: segment.toList then .object [(segment, inner)]
                  else .array (List.replicate index .null ++ [inner])) := by
  rw [FieldPath.toJson?_resolve] at hvalue
  refine ⟨isSome_project?_singleton hvalue, fun projected hprojected => ⟨?_, ?_⟩⟩
  · rw [eq_project_of_project? hprojected, FieldPath.toJson?_resolve]
    exact follow?_project_singleton (List.append_nil _).symm key.segments_ne_nil hvalue
  · intro place segment rest items hsegments hitems hlength hsegment
    have hplace : place ≠ [] := by
      rintro rfl
      cases hitems
    have hfollow : (Json.array items).follow? (segment :: rest) = some value := by
      rwa [hsegments, Json.follow?_append, hitems] at hvalue
    obtain ⟨index, item, hindex, hitem, hrest⟩ :=
      Json.exists_index_of_follow?_array hfollow hsegment
    have hfits : index < 2 ^ 64 :=
      Nat.lt_of_lt_of_le (List.getElem?_eq_some_iff.mp hitem).1 hlength
    refine ⟨index, item, Json.fill value rest .null, hindex, hitem, hrest,
      Json.follow?_fill_null_self value rest, ?_⟩
    rw [eq_project_of_project? hprojected, follow?_project_singleton hsegments hplace hvalue,
      Json.fill_null_of_readIndex? value hindex hfits]

/-- An element is selected behind an index with a zero before it, out of a member named
`length`. -/
theorem project_key_rebuilds_arrays_of_rows :
    let names : List Json := [.string "a", .string "b", .string "c"]
    let rows : List Json := [.null, .object [("length", .array names)]]
    let members : Members := [("id", .bool true), ("rows", .array rows)]
    let key : FieldPath := ⟨"rows.01.length.2"⟩
    (key.resolve (.object members)).toJson? = some (.string "c")
      ∧ key.segments = ["rows"] ++ "01" :: ["length", "2"]
      ∧ (Json.object members).follow? ["rows"] = some (.array rows)
      ∧ key.segments = ["rows", "01", "length"] ++ "2" :: []
      ∧ (Json.object members).follow? ["rows", "01", "length"] = some (.array names)
      ∧ ∃ projected, project? [key] (.object members) = some projected
        ∧ (key.resolve projected).toJson? = some (.string "c")
        ∧ (∃ inner, inner.follow? ["length", "2"] = some (.string "c")
            ∧ projected.follow? ["rows"] = some (.array [.null, inner]))
        ∧ projected.follow? ["rows", "01", "length"]
            = some (.array [.null, .null, .string "c"]) := by
  intro names rows members key
  have hvalue : (key.resolve (.object members)).toJson? = some (.string "c") := by decide +kernel
  have houter : key.segments = ["rows"] ++ "01" :: ["length", "2"] := by decide +kernel
  have hrows : (Json.object members).follow? ["rows"] = some (.array rows) := by decide +kernel
  have hinner : key.segments = ["rows", "01", "length"] ++ "2" :: [] := by decide +kernel
  have hnames : (Json.object members).follow? ["rows", "01", "length"] = some (.array names) := by
    decide +kernel
  have hone : FieldPath.readIndex? "01" = some 1 := by decide +kernel
  have htwo : FieldPath.readIndex? "2" = some 2 := by decide +kernel
  obtain ⟨hroom, hprojections⟩ := project_key_rebuilds_arrays hvalue
  obtain ⟨projected, hprojected⟩ :=
    Option.isSome_iff_exists.mp (hroom.mpr (by decide +kernel))
  obtain ⟨hkept, hrebuilt⟩ := hprojections projected hprojected
  refine ⟨hvalue, houter, hrows, hinner, hnames, projected, hprojected, hkept, ?_, ?_⟩
  · obtain ⟨index, item, inner, hindex, -, -, hfollow, harray⟩ :=
      hrebuilt _ _ _ _ houter hrows (by decide) (by decide)
    obtain rfl : 1 = index := Option.some.inj (hone.symm.trans hindex)
    rw [if_neg (by decide +kernel)] at harray
    exact ⟨inner, hfollow, harray⟩
  · obtain ⟨index, item, inner, hindex, -, -, hfollow, harray⟩ :=
      hrebuilt _ _ _ _ hinner hnames (by decide) (by decide)
    obtain rfl : 2 = index := Option.some.inj (htwo.symm.trans hindex)
    obtain rfl : inner = .string "c" := Option.some.inj hfollow
    rw [if_neg (by decide +kernel)] at harray
    exact harray

/-- Resolution goes through the array by an index with a plus sign, and the projection has no
array there. -/
theorem project_key_loses_array_of_sign :
    let items : List Json := [.bool true, .bool false]
    let record : Json := .object [("a", .array items)]
    let key : FieldPath := ⟨"a.+1"⟩
    (key.resolve record).toJson? = some (.bool false)
      ∧ key.segments = ["a"] ++ "+1" :: []
      ∧ record.follow? ["a"] = some (.array items)
      ∧ FieldPath.readIndex? "+1" = some 1 ∧ items[1]? = some (.bool false)
      ∧ project? [key] record = some (.object [("a", .object [("+1", .bool false)])])
      ∧ (project [key] record).follow? ["a"] ≠ some (.array [.null, .bool false]) := by
  decide +kernel

end RecordQuery
