import RecordQuery.Proofs.Arrangement.Slots

/-!
# What a run yields

The value that a run of puts leaves at a path, by rules that go along the
path (`Yields`). Of the puts only those count that lead through the slots
on the way, and of these only what comes after the last one that ends
there. The rules are those by which containers are shared: the first put
that goes on from a slot settles whether an array or an object is made,
in an object puts meet by name, and in an array by index.

A run leaves at a path what the rules say, and nothing else
(`follow?_fillAll_eq_some_iff`).
-/

namespace RecordQuery

/-- A run of puts on a slot leaves a value at a path. -/
inductive Yields : List (List String × Json) → Json → List String → Json → Prop where
  /-- Where nothing is put everything stays. -/
  | untouched {slot value : Json} {path : List String} (h : slot.follow? path = some value) :
      Yields [] slot path value
  /-- The last put that ends at the slot brings in a whole value, for the puts after it. -/
  | ending {before after : List (List String × Json)} {whole slot value : Json}
      {path : List String} (hafter : ∀ put ∈ after, put.1 ≠ [])
      (h : Yields after whole path value) :
      Yields (before ++ ([], whole) :: after) slot path value
  /-- In an object the puts that begin with a name lead to its member. -/
  | member {puts : List (List String × Json)} {slot value : Json} {members : Members}
      {name : String} {rest : List String} (hputs : ∀ put ∈ puts, put.1 ≠ [])
      (hslot : Json.openedFor puts slot = .object members)
      (hname : (Members.get? name members).isSome ∨ beyond (named name) puts ≠ [])
      (h : Yields (beyond (named name) puts) ((Members.get? name members).getD .null) rest value) :
      Yields puts slot (name :: rest) value
  /-- In an array the puts that begin with an index, however it is spelled in digits, lead to its
  element, and the array is as long as they make it. -/
  | element {puts : List (List String × Json)} {slot value : Json} {items : List Json}
      {segment : String} {index : Nat} {rest : List String} (hputs : ∀ put ∈ puts, put.1 ≠ [])
      (hslot : Json.openedFor puts slot = .array items)
      (hindex : FieldPath.readIndex? segment = some index)
      (hlt : index < Json.lengthWith puts items.length)
      (h : Yields (beyond (indexed index) puts) (items[index]?.getD .null) rest value) :
      Yields puts slot (segment :: rest) value
  /-- The length of an array is that which the puts give it. -/
  | length {puts : List (List String × Json)} {slot : Json} {items : List Json}
      (hputs : ∀ put ∈ puts, put.1 ≠ []) (hslot : Json.openedFor puts slot = .array items) :
      Yields puts slot ["length"] (.ofWord (.ofNat (Json.lengthWith puts items.length)))
  /-- A whole object has the members that were there and those that puts lead to. -/
  | object {puts : List (List String × Json)} {slot : Json} {members filled : Members}
      (hputs : ∀ put ∈ puts, put.1 ≠ []) (hslot : Json.openedFor puts slot = .object members)
      (hfilled : filled.Ascending)
      (hnames : ∀ name, (Members.get? name filled).isSome
        ↔ (Members.get? name members).isSome ∨ beyond (named name) puts ≠ [])
      (h : ∀ name value, Members.get? name filled = some value →
        Yields (beyond (named name) puts) ((Members.get? name members).getD .null) [] value) :
      Yields puts slot [] (.object filled)
  /-- A whole array has the elements that were there and those that it is filled up with. -/
  | array {puts : List (List String × Json)} {slot : Json} {items filled : List Json}
      (hputs : ∀ put ∈ puts, put.1 ≠ []) (hslot : Json.openedFor puts slot = .array items)
      (hlength : filled.length = Json.lengthWith puts items.length)
      (h : ∀ i item, filled[i]? = some item →
        Yields (beyond (indexed i) puts) (items[i]?.getD .null) [] item) :
      Yields puts slot [] (.array filled)

namespace Json

variable {puts : List (List String × Json)}

theorem WellFormed.getD_get? {members : Members} (h : (Json.object members).WellFormed)
    (name : String) : ((Members.get? name members).getD .null).WellFormed := by
  cases hget : Members.get? name members with
  | none => exact .null
  | some value => exact h.member hget

theorem WellFormed.getD_getElem? {items : List Json} (h : (Json.array items).WellFormed)
    (index : Nat) : (items[index]?.getD .null).WellFormed := by
  cases hget : items[index]? with
  | none => exact .null
  | some item => exact h.item hget

/-! ## The rules hold of a run -/

theorem fillAll_of_openedFor {slot found : Json} (h : openedFor puts slot = found) :
    fillAll puts slot = fillAll puts found := by
  rw [← h, fillAll_openedFor]

/-- An object that has the members of a run on an object is what the run makes. -/
theorem fillAll_eq_object {members filled : Members} (hputs : ∀ put ∈ puts, put.1 ≠ [])
    (hwf : (fillAll puts (.object members)).WellFormed) (hfilled : filled.Ascending)
    (hnames : ∀ name, (Members.get? name filled).isSome
      ↔ (Members.get? name members).isSome ∨ beyond (named name) puts ≠ [])
    (hvalues : ∀ name value, Members.get? name filled = some value →
      fillAll (beyond (named name) puts) ((Members.get? name members).getD .null) = value) :
    fillAll puts (.object members) = .object filled := by
  obtain ⟨made, hmade, hmembers⟩ := fillAll_object hputs members
  rw [hmade] at hwf ⊢
  refine congrArg Json.object (hwf.ascending.ext hfilled fun name => ?_)
  rw [hmembers name]
  cases hget : Members.get? name filled with
  | none =>
      rw [if_neg fun hname => ?_]
      have hsome := (hnames name).mpr hname
      rw [hget] at hsome
      cases hsome
  | some value =>
      rw [if_pos ((hnames name).mp (Option.isSome_of_eq_some hget)), hvalues name value hget]

/-- An array that has the elements of a run on an array is what the run makes. -/
theorem fillAll_eq_array {items filled : List Json} (hputs : ∀ put ∈ puts, put.1 ≠ [])
    (hlength : filled.length = lengthWith puts items.length)
    (hitems : ∀ i item, filled[i]? = some item →
      fillAll (beyond (indexed i) puts) (items[i]?.getD .null) = item) :
    fillAll puts (.array items) = .array filled := by
  obtain ⟨made, hmade, hmadeLength, helements⟩ := fillAll_array hputs items
  rw [hmade]
  refine congrArg Json.array (List.ext_getElem? fun i => ?_)
  by_cases hlt : i < filled.length
  · have hitem := List.getElem?_eq_getElem hlt
    rw [helements i (by omega), hitem, hitems i _ hitem]
  · rw [List.getElem?_eq_none (by omega), List.getElem?_eq_none (by omega)]

theorem follow?_fillAll_of_yields {slot value : Json} {path : List String}
    (h : Yields puts slot path value) :
    slot.WellFormed → (∀ put ∈ puts, put.2.WellFormed) →
      (fillAll puts slot).follow? path = some value := by
  induction h with
  | untouched h => exact fun _ _ => h
  | ending hafter h ih =>
      intro hslot hwf
      rw [fillAll_ending]
      have hlast := List.forall_mem_cons.mp (List.forall_mem_append.mp hwf).2
      exact ih hlast.1 hlast.2
  | member hputs hslot hname h ih =>
      intro hwf hvalues
      rw [fillAll_of_openedFor hslot, follow?_fillAll_object hputs hname]
      exact ih ((hslot ▸ hwf.openedFor _ : (Json.object _).WellFormed).getD_get? _)
        (forall_beyond hvalues _)
  | element hputs hslot hindex hlt h ih =>
      intro hwf hvalues
      rw [fillAll_of_openedFor hslot, follow?_fillAll_array hputs hindex hlt]
      exact ih ((hslot ▸ hwf.openedFor _ : (Json.array _).WellFormed).getD_getElem? _)
        (forall_beyond hvalues _)
  | @length puts slot items hputs hslot =>
      intro _ _
      have hname : FieldPath.readIndex? "length" = none := by decide +kernel
      obtain ⟨filled, hfilled, hlength, -⟩ := fillAll_array hputs items
      rw [fillAll_of_openedFor hslot, hfilled, follow?_array_of_not_index filled hname, ← hlength]
      exact lengthAt?_eq_some.mpr ⟨⟨rfl, rfl⟩, rfl⟩
  | @object puts slot members filled hputs hslot hfilled hnames h ih =>
      intro hwf hvalues
      have hmembers : (Json.object members).WellFormed := hslot ▸ hwf.openedFor puts
      rw [fillAll_of_openedFor hslot, fillAll_eq_object hputs (hmembers.fillAll hvalues) hfilled
        hnames fun name value hget => Option.some.inj
          (ih name value hget (hmembers.getD_get? name) (forall_beyond hvalues _))]
      rfl
  | @array puts slot items filled hputs hslot hlength h ih =>
      intro hwf hvalues
      have hitems : (Json.array items).WellFormed := hslot ▸ hwf.openedFor puts
      rw [fillAll_of_openedFor hslot, fillAll_eq_array hputs hlength fun i item hitem =>
        Option.some.inj (ih i item hitem (hitems.getD_getElem? i) (forall_beyond hvalues _))]
      rfl

/-! ## A run leaves nothing else -/

theorem yields_of_fillAll_object {slot value : Json} {members : Members} {path : List String}
    (hputs : ∀ put ∈ puts, put.1 ≠ []) (hslot : openedFor puts slot = .object members)
    (hwf : (fillAll puts (.object members)).WellFormed)
    (hbeyond : ∀ name rest v,
      (fillAll (beyond (named name) puts)
        ((Members.get? name members).getD .null)).follow? rest = some v →
      Yields (beyond (named name) puts) ((Members.get? name members).getD .null) rest v)
    (h : (fillAll puts (.object members)).follow? path = some value) :
    Yields puts slot path value := by
  obtain ⟨filled, hfilled, hget⟩ := fillAll_object hputs members
  rw [hfilled] at h hwf
  cases path with
  | nil =>
      obtain rfl := Option.some.inj h
      refine .object hputs hslot hwf.ascending (fun name => ?_) fun name v hv => ?_
      · rw [hget name, Option.isSome_ite]
      · rw [hget name] at hv
        obtain ⟨-, hv⟩ := Option.ite_none_right_eq_some.mp hv
        exact hbeyond name [] v hv
  | cons name rest =>
      rw [follow?_object, hget name] at h
      obtain ⟨inner, hinner, hrest⟩ := Option.bind_eq_some_iff.mp h
      obtain ⟨hname, hinner⟩ := Option.ite_none_right_eq_some.mp hinner
      refine .member hputs hslot hname (hbeyond name rest value ?_)
      rw [Option.some.inj hinner, hrest]

theorem yields_of_fillAll_array {slot value : Json} {items : List Json} {path : List String}
    (hputs : ∀ put ∈ puts, put.1 ≠ []) (hslot : openedFor puts slot = .array items)
    (hbeyond : ∀ index rest v,
      (fillAll (beyond (indexed index) puts) (items[index]?.getD .null)).follow? rest = some v →
      Yields (beyond (indexed index) puts) (items[index]?.getD .null) rest v)
    (h : (fillAll puts (.array items)).follow? path = some value) :
    Yields puts slot path value := by
  obtain ⟨filled, hfilled, hlength, hget⟩ := fillAll_array hputs items
  rw [hfilled] at h
  cases path with
  | nil =>
      obtain rfl := Option.some.inj h
      refine .array hputs hslot hlength fun i item hitem => ?_
      rw [hget i (List.getElem?_eq_some_iff.mp hitem).1] at hitem
      exact hbeyond i [] item hitem
  | cons segment rest =>
      cases hindex : FieldPath.readIndex? segment with
      | none =>
          rw [follow?_array_of_not_index filled hindex, hlength] at h
          obtain ⟨⟨rfl, rfl⟩, rfl⟩ := lengthAt?_eq_some.mp h
          exact .length hputs hslot
      | some index =>
          rw [follow?_array_of_index filled hindex] at h
          obtain ⟨inner, hinner, hrest⟩ := Option.bind_eq_some_iff.mp h
          have hlt := (List.getElem?_eq_some_iff.mp hinner).1
          rw [hget index hlt] at hinner
          refine .element hputs hslot hindex (hlength ▸ hlt) (hbeyond index rest value ?_)
          rw [Option.some.inj hinner, hrest]

/-- By induction on the size of the run: beyond a slot there is less of it, and so there is after
a put that ends. -/
theorem yields_of_follow?_fillAll {slot value : Json} {path : List String}
    (hslot : slot.WellFormed) (hvalues : ∀ put ∈ puts, put.2.WellFormed)
    (h : (fillAll puts slot).follow? path = some value) : Yields puts slot path value := by
  induction hsize : weight puts using Nat.strongRecOn generalizing puts slot path value with
  | _ size ih =>
    subst hsize
    rcases nonempty_or_last_ending puts with hputs | ⟨before, whole, after, rfl, hafter⟩
    · by_cases hne : puts = []
      · subst hne
        exact .untouched h
      · have hopened := hslot.openedFor puts
        have hbeyond : ∀ leads {inner : Json}, inner.WellFormed → ∀ rest v,
            (fillAll (beyond leads puts) inner).follow? rest = some v →
            Yields (beyond leads puts) inner rest v := fun leads _ hinner _ _ hfollow =>
          ih _ (weight_beyond_lt hne leads) hinner (forall_beyond hvalues leads) hfollow rfl
        rcases exists_openedFor hne hputs slot with ⟨members, hmembers⟩ | ⟨items, hitems⟩
        · rw [hmembers] at hopened
          exact yields_of_fillAll_object hputs hmembers (hopened.fillAll hvalues)
            (fun name => hbeyond _ (hopened.getD_get? name)) (fillAll_of_openedFor hmembers ▸ h)
        · rw [hitems] at hopened
          exact yields_of_fillAll_array hputs hitems
            (fun index => hbeyond _ (hopened.getD_getElem? index)) (fillAll_of_openedFor hitems ▸ h)
    · rw [fillAll_ending] at h
      have hlast := List.forall_mem_cons.mp (List.forall_mem_append.mp hvalues).2
      have hlt : weight after < weight (before ++ ([], whole) :: after) := by
        rw [weight_append, weight_cons]
        omega
      exact .ending hafter (ih _ hlt hlast.1 hlast.2 h rfl)

/-- A run on well-formed documents leaves exactly what the rules say. -/
theorem follow?_fillAll_eq_some_iff {slot value : Json} {path : List String}
    (hslot : slot.WellFormed) (hvalues : ∀ put ∈ puts, put.2.WellFormed) :
    (fillAll puts slot).follow? path = some value ↔ Yields puts slot path value :=
  ⟨yields_of_follow?_fillAll hslot hvalues, fun h => follow?_fillAll_of_yields h hslot hvalues⟩

end Json

end RecordQuery
