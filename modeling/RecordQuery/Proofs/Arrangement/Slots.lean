import Mathlib.Data.List.Basic
import RecordQuery.Proofs.Arrangement.Insertion

/-!
# Runs of puts, slot by slot

Putting several values at paths builds a tree, and every slot of it is
built by a run of its own: by what is left of the puts that lead through
it (`beyond`). So a run on a container is one run on each of its slots
(`fillAll_object`, `fillAll_array`), a run on anything else is one on the
container that its first put makes (`fillAll_openedFor`), and a run on a
slot starts again whenever a put ends there (`nonempty_or_last_ending`).

What is left beyond a slot has fewer segments (`weight_beyond_lt`), which
is what inductions over runs are on.
-/

namespace RecordQuery

variable {puts : List (List String × Json)}

/-! ## What is left beyond a slot -/

/-- The puts that begin with a segment that leads to a slot, without that segment. -/
def beyond (leads : String → Bool) (puts : List (List String × Json)) :
    List (List String × Json) :=
  puts.filterMap fun put =>
    match put.1 with
    | [] => none
    | segment :: rest => if leads segment then some (rest, put.2) else none

variable {leads : String → Bool}

theorem beyond_cons_of_leads {segment : String} (h : leads segment = true) (rest : List String)
    (value : Json) :
    beyond leads ((segment :: rest, value) :: puts) = (rest, value) :: beyond leads puts :=
  List.filterMap_cons_some (if_pos h)

theorem beyond_cons_of_not_leads {segment : String} (h : leads segment = false)
    (rest : List String) (value : Json) :
    beyond leads ((segment :: rest, value) :: puts) = beyond leads puts :=
  List.filterMap_cons_none (if_neg (by simp [h]))

theorem mem_beyond {path : List String} {value : Json} :
    (path, value) ∈ beyond leads puts
      ↔ ∃ segment, leads segment = true ∧ (segment :: path, value) ∈ puts := by
  rw [beyond, List.mem_filterMap]
  constructor
  · rintro ⟨⟨_ | ⟨segment, rest⟩, other⟩, hmem, hput⟩
    · cases hput
    · obtain ⟨hleads, heq⟩ := Option.ite_none_right_eq_some.mp hput
      cases heq
      exact ⟨segment, hleads, hmem⟩
  · rintro ⟨segment, hleads, hmem⟩
    exact ⟨_, hmem, if_pos hleads⟩

theorem beyond_congr {leads' : String → Bool}
    (h : ∀ segment rest value, (segment :: rest, value) ∈ puts → leads segment = leads' segment) :
    beyond leads puts = beyond leads' puts := by
  refine List.filterMap_congr fun put hput => ?_
  obtain ⟨_ | ⟨segment, rest⟩, value⟩ := put
  · rfl
  · simp only [h segment rest value hput]

/-- The segment that leads to a member of an object. -/
def named (name segment : String) : Bool :=
  segment = name

/-- The segments that lead to an element of an array. -/
def indexed (index : Nat) (segment : String) : Bool :=
  digitIndex? segment = some index

theorem mem_beyond_named {name : String} {path : List String} {value : Json} :
    (path, value) ∈ beyond (named name) puts ↔ (name :: path, value) ∈ puts := by
  rw [mem_beyond]
  constructor
  · rintro ⟨segment, hsegment, hmem⟩
    exact of_decide_eq_true hsegment ▸ hmem
  · exact fun hmem => ⟨name, decide_eq_true rfl, hmem⟩

theorem mem_beyond_indexed {index : Nat} {path : List String} {value : Json} :
    (path, value) ∈ beyond (indexed index) puts
      ↔ ∃ segment, digitIndex? segment = some index ∧ (segment :: path, value) ∈ puts := by
  simp only [mem_beyond, indexed, decide_eq_true_iff]

theorem forall_beyond {p : Json → Prop} (h : ∀ put ∈ puts, p put.2) (leads : String → Bool) :
    ∀ put ∈ beyond leads puts, p put.2 := by
  rintro ⟨path, value⟩ hput
  obtain ⟨segment, -, hmem⟩ := mem_beyond.mp hput
  exact h (segment :: path, value) hmem

/-! ## Sizes of runs -/

/-- The number of segments of all puts, and the number of the puts. -/
def weight : List (List String × Json) → Nat
  | [] => 0
  | (path, _) :: rest => path.length + 1 + weight rest

theorem weight_cons (path : List String) (value : Json) :
    weight ((path, value) :: puts) = path.length + 1 + weight puts :=
  rfl

theorem weight_append (before after : List (List String × Json)) :
    weight (before ++ after) = weight before + weight after := by
  induction before with
  | nil => exact (Nat.zero_add _).symm
  | cons put rest ih =>
      obtain ⟨path, value⟩ := put
      rw [List.cons_append, weight_cons, weight_cons, ih]
      omega

theorem weight_beyond_le (leads : String → Bool) (puts : List (List String × Json)) :
    weight (beyond leads puts) + puts.length ≤ weight puts := by
  induction puts with
  | nil => exact Nat.le_refl _
  | cons put rest ih =>
      obtain ⟨path, value⟩ := put
      rw [weight_cons, List.length_cons]
      cases path with
      | nil =>
          have hskip : beyond leads (([], value) :: rest) = beyond leads rest := rfl
          rw [hskip]
          omega
      | cons segment others =>
          rw [List.length_cons]
          by_cases hleads : leads segment = true
          · rw [beyond_cons_of_leads hleads, weight_cons]
            omega
          · rw [beyond_cons_of_not_leads (Bool.eq_false_iff.mpr hleads)]
            omega

theorem weight_beyond_lt (h : puts ≠ []) (leads : String → Bool) :
    weight (beyond leads puts) < weight puts := by
  have hle := weight_beyond_le leads puts
  have hpos := List.length_pos_of_ne_nil h
  omega

/-- The first of several puts that all lead further has a first segment. -/
theorem exists_segment_of_nonempty {put : List String × Json}
    (h : ∀ other ∈ put :: puts, other.1 ≠ []) :
    ∃ segment rest value, put = (segment :: rest, value) ∧ ∀ other ∈ puts, other.1 ≠ [] := by
  obtain ⟨path, value⟩ := put
  obtain ⟨hpath, hputs⟩ := List.forall_mem_cons.mp h
  obtain ⟨segment, rest, rfl⟩ := List.exists_cons_of_ne_nil hpath
  exact ⟨segment, rest, value, rfl, hputs⟩

/-- Puts on a slot either all lead further, or the others stand before and after the last one
that ends there. -/
theorem nonempty_or_last_ending (puts : List (List String × Json)) :
    (∀ put ∈ puts, put.1 ≠ []) ∨ ∃ before whole after,
      puts = before ++ ([], whole) :: after ∧ ∀ put ∈ after, put.1 ≠ [] := by
  induction puts with
  | nil => exact .inl fun _ h => absurd h List.not_mem_nil
  | cons put rest ih =>
      obtain ⟨path, value⟩ := put
      rcases ih with hrest | ⟨before, whole, after, rfl, hafter⟩
      · cases path with
        | nil => exact .inr ⟨[], value, rest, rfl, hrest⟩
        | cons segment others =>
            exact .inl (List.forall_mem_cons.mpr ⟨List.cons_ne_nil _ _, hrest⟩)
      · exact .inr ⟨(path, value) :: before, whole, after, rfl, hafter⟩

namespace Json

/-! ## Runs on a slot -/

/-- What a slot holds after several values have been put at paths from there. -/
def fillAll (puts : List (List String × Json)) (slot : Json) : Json :=
  puts.foldl (fun slot put => fill put.2 put.1 slot) slot

theorem fillAll_cons (path : List String) (value slot : Json) :
    fillAll ((path, value) :: puts) slot = fillAll puts (fill value path slot) :=
  rfl

theorem putAll_eq_fillAll (h : ∀ put ∈ puts, put.1 ≠ []) (members : Members) :
    putAll puts (.object members) = fillAll puts (.object members) := by
  induction puts generalizing members with
  | nil => rfl
  | cons put rest ih =>
      obtain ⟨segment, others, value, rfl, hrest⟩ := exists_segment_of_nonempty h
      have hstep : putAll ((segment :: others, value) :: rest) (.object members)
          = putAll rest (insertAt value (segment :: others) (.object members)) := rfl
      rw [hstep, fillAll_cons, fill_of_isContainer value _ rfl, insertAt_object, ih hrest]

/-- A put that ends at a slot leaves nothing of what was there. -/
theorem fillAll_ending (before after : List (List String × Json)) (whole slot : Json) :
    fillAll (before ++ ([], whole) :: after) slot = fillAll after whole := by
  rw [fillAll, List.foldl_append, List.foldl_cons]
  rfl

/-- What a run finds in a slot: what is there, or the container that its first put makes of
it. -/
def openedFor : List (List String × Json) → Json → Json
  | [], slot => slot
  | (path, _) :: _, slot => makeWay path slot

theorem isContainer_containerFor (segment : String) :
    (containerFor segment).isContainer = true := by
  unfold containerFor
  split <;> rfl

theorem makeWay_of_isContainer (path : List String) {slot : Json}
    (h : slot.isContainer = true) : makeWay path slot = slot := by
  cases path with
  | nil => rfl
  | cons segment rest => exact if_pos h

theorem isContainer_makeWay (segment : String) (rest : List String) (slot : Json) :
    (makeWay (segment :: rest) slot).isContainer = true := by
  rw [makeWay]
  split
  · assumption
  · exact isContainer_containerFor segment

theorem fillAll_openedFor (puts : List (List String × Json)) (slot : Json) :
    fillAll puts (openedFor puts slot) = fillAll puts slot := by
  rcases puts with _ | ⟨⟨_ | ⟨segment, rest⟩, value⟩, others⟩
  · rfl
  · rfl
  · have hway := makeWay_of_isContainer (segment :: rest) (isContainer_makeWay segment rest slot)
    rw [openedFor, fillAll_cons, fillAll_cons, fill, hway, fill]

/-- Puts that lead further find an object or an array. -/
theorem exists_openedFor (hne : puts ≠ []) (h : ∀ put ∈ puts, put.1 ≠ []) (slot : Json) :
    (∃ members, openedFor puts slot = .object members)
      ∨ ∃ items, openedFor puts slot = .array items := by
  obtain ⟨put, others, rfl⟩ := List.exists_cons_of_ne_nil hne
  obtain ⟨segment, rest, value, rfl, -⟩ := exists_segment_of_nonempty h
  have hcontainer := isContainer_makeWay segment rest slot
  rw [openedFor]
  cases hway : makeWay (segment :: rest) slot with
  | object members => exact .inl ⟨members, rfl⟩
  | array items => exact .inr ⟨items, rfl⟩
  | null | bool _ | number _ | string _ =>
      rw [hway] at hcontainer
      cases hcontainer

/-- An empty slot becomes an array if some put begins with an index in digits, or else an
object. -/
theorem openedFor_null (hne : puts ≠ []) (hputs : ∀ put ∈ puts, put.1 ≠ []) :
    openedFor puts .null = .object []
      ∨ openedFor puts .null = .array [] ∧ ∃ segment index rest value,
        digitIndex? segment = some index ∧ (segment :: rest, value) ∈ puts := by
  obtain ⟨put, others, rfl⟩ := List.exists_cons_of_ne_nil hne
  obtain ⟨segment, rest, value, rfl, -⟩ := exists_segment_of_nonempty hputs
  have hopened : openedFor ((segment :: rest, value) :: others) .null
      = containerFor segment := rfl
  rw [hopened]
  cases hindex : digitIndex? segment with
  | none => exact .inl (containerFor_of_not_index hindex)
  | some index =>
      exact .inr ⟨containerFor_of_index hindex, segment, index, rest, value, hindex,
        List.mem_cons_self⟩

theorem WellFormed.openedFor {slot : Json} (h : slot.WellFormed)
    (puts : List (List String × Json)) : (openedFor puts slot).WellFormed := by
  cases puts with
  | nil => exact h
  | cons put rest => exact h.makeWay put.1

/-! ## Runs on a container -/

/-- A run on an object is a run on each member that is there or that a put leads to. -/
theorem fillAll_object (h : ∀ put ∈ puts, put.1 ≠ []) (members : Members) :
    ∃ filled, fillAll puts (.object members) = .object filled
      ∧ ∀ name, Members.get? name filled
        = if (Members.get? name members).isSome ∨ beyond (named name) puts ≠ [] then
            some (fillAll (beyond (named name) puts) ((Members.get? name members).getD .null))
          else none := by
  induction puts generalizing members with
  | nil =>
      refine ⟨members, rfl, fun name => ?_⟩
      cases Members.get? name members with
      | none => exact (if_neg (by simp [beyond])).symm
      | some value => exact (if_pos (.inl rfl)).symm
  | cons put rest ih =>
      obtain ⟨segment, others, value, rfl, hrest⟩ := exists_segment_of_nonempty h
      have hstep : fillAll ((segment :: others, value) :: rest) (.object members)
          = fillAll rest (.object (Members.insert segment
              (fill value others ((Members.get? segment members).getD .null)) members)) := by
        rw [fillAll_cons, fill_of_isContainer value _ rfl, insertAt_object]
      obtain ⟨filled, hfilled, hmembers⟩ := ih hrest (Members.insert segment
        (fill value others ((Members.get? segment members).getD .null)) members)
      refine ⟨filled, hstep.trans hfilled, fun name => ?_⟩
      rw [hmembers name, Members.get?_insert]
      by_cases heq : name = segment
      · subst heq
        rw [if_pos rfl, beyond_cons_of_leads (decide_eq_true rfl), if_pos (.inl rfl),
          if_pos (.inr (List.cons_ne_nil _ _))]
        rfl
      · rw [if_neg heq, beyond_cons_of_not_leads (decide_eq_false (Ne.symm heq))]

/-- The number of elements that an array has after a run on it. -/
def lengthWith (puts : List (List String × Json)) (count : Nat) : Nat :=
  puts.foldl (fun count put =>
    match put.1.head?.bind digitIndex? with
    | some index => max count (index + 1)
    | none => count) count

theorem lengthWith_cons_of_index {segment : String} {index : Nat}
    (h : digitIndex? segment = some index) (rest : List String) (value : Json) (count : Nat) :
    lengthWith ((segment :: rest, value) :: puts) count
      = lengthWith puts (max count (index + 1)) := by
  rw [lengthWith, List.foldl_cons, List.head?_cons, Option.bind_some, h]
  rfl

theorem lengthWith_cons_of_not_index {segment : String} (h : digitIndex? segment = none)
    (rest : List String) (value : Json) (count : Nat) :
    lengthWith ((segment :: rest, value) :: puts) count = lengthWith puts count := by
  rw [lengthWith, List.foldl_cons, List.head?_cons, Option.bind_some, h]
  rfl

/-- A run on an array is a run on each element that is there or that the array is filled up
with. -/
theorem fillAll_array (h : ∀ put ∈ puts, put.1 ≠ []) (items : List Json) :
    ∃ filled, fillAll puts (.array items) = .array filled
      ∧ filled.length = lengthWith puts items.length
      ∧ ∀ i, i < filled.length →
          filled[i]? = some (fillAll (beyond (indexed i) puts) (items[i]?.getD .null)) := by
  induction puts generalizing items with
  | nil =>
      refine ⟨items, rfl, rfl, fun i hi => ?_⟩
      rw [List.getElem?_eq_getElem hi]
      rfl
  | cons put rest ih =>
      obtain ⟨segment, others, value, rfl, hrest⟩ := exists_segment_of_nonempty h
      cases hindex : digitIndex? segment with
      | none =>
          have hstep : fillAll ((segment :: others, value) :: rest) (.array items)
              = fillAll rest (.array items) := by
            rw [fillAll_cons, fill_of_isContainer value _ rfl,
              insertAt_array_of_not_index value hindex]
          have hbeyond : ∀ i, beyond (indexed i) ((segment :: others, value) :: rest)
              = beyond (indexed i) rest := fun i =>
            beyond_cons_of_not_leads (by simp [indexed, hindex]) others value
          rw [hstep, lengthWith_cons_of_not_index hindex]
          simp only [hbeyond]
          exact ih hrest items
      | some index =>
          have hstep : fillAll ((segment :: others, value) :: rest) (.array items)
              = fillAll rest (.array ((padTo index items).set index
                  (fill value others (items[index]?.getD .null)))) := by
            rw [fillAll_cons, fill_of_isContainer value _ rfl,
              insertAt_array_of_index value hindex]
          obtain ⟨filled, hfilled, hlength, hitems⟩ := ih hrest ((padTo index items).set index
            (fill value others (items[index]?.getD .null)))
          rw [List.length_set, length_padTo] at hlength
          refine ⟨filled, hstep.trans hfilled,
            hlength.trans (lengthWith_cons_of_index hindex others value _).symm, fun i hi => ?_⟩
          rw [hitems i hi, getElem?_set_padTo]
          by_cases heq : i = index
          · subst heq
            rw [if_pos rfl, beyond_cons_of_leads (by simp [indexed, hindex])]
            rfl
          · rw [if_neg heq, beyond_cons_of_not_leads (by simp [indexed, hindex, Ne.symm heq])]
            -- An element that was not there is `null`, whether or not the array was filled up.
            by_cases hlt : i < items.length
            · rw [if_pos hlt]
            · rw [if_neg hlt, List.getElem?_eq_none (Nat.le_of_not_lt hlt)]
              split <;> rfl

/-- An array becomes as long as its elements and the indices that puts lead to ask for. -/
theorem lengthWith_le_iff {count n : Nat} :
    lengthWith puts count ≤ n
      ↔ count ≤ n ∧ ∀ i, beyond (indexed i) puts ≠ [] → i < n := by
  induction puts generalizing count with
  | nil => exact ⟨fun h => ⟨h, fun _ hbeyond => absurd rfl hbeyond⟩, And.left⟩
  | cons put rest ih =>
      obtain ⟨_ | ⟨segment, others⟩, value⟩ := put
      · exact ih
      · cases hindex : digitIndex? segment with
        | none =>
            have hbeyond : ∀ i, beyond (indexed i) ((segment :: others, value) :: rest)
                = beyond (indexed i) rest := fun i =>
              beyond_cons_of_not_leads (by simp [indexed, hindex]) others value
            simp only [lengthWith_cons_of_not_index hindex, hbeyond]
            exact ih
        | some index =>
            have hself : beyond (indexed index) ((segment :: others, value) :: rest) ≠ [] := by
              rw [beyond_cons_of_leads (by simp [indexed, hindex])]
              exact List.cons_ne_nil _ _
            have hother : ∀ i, i ≠ index →
                beyond (indexed i) ((segment :: others, value) :: rest)
                  = beyond (indexed i) rest := fun i hi =>
              beyond_cons_of_not_leads (by simp [indexed, hindex, Ne.symm hi]) others value
            rw [lengthWith_cons_of_index hindex, ih, Nat.max_le]
            constructor
            · rintro ⟨⟨hcount, hlt⟩, hrest⟩
              refine ⟨hcount, fun i hi => ?_⟩
              by_cases heq : i = index
              · exact heq ▸ hlt
              · exact hrest i (hother i heq ▸ hi)
            · rintro ⟨hcount, hall⟩
              refine ⟨⟨hcount, hall index hself⟩, fun i hi => ?_⟩
              by_cases heq : i = index
              · exact heq ▸ hall index hself
              · exact hall i ((hother i heq).symm ▸ hi)

theorem le_lengthWith (puts : List (List String × Json)) (count : Nat) :
    count ≤ lengthWith puts count :=
  (lengthWith_le_iff.mp (Nat.le_refl _)).1

theorem lt_lengthWith_of_beyond {index : Nat} (h : beyond (indexed index) puts ≠ [])
    (count : Nat) : index < lengthWith puts count :=
  (lengthWith_le_iff.mp (Nat.le_refl _)).2 index h

/-- An array becomes no longer if puts lead to no elements but its own. -/
theorem lengthWith_eq {count : Nat} (h : ∀ i, beyond (indexed i) puts ≠ [] → i < count) :
    lengthWith puts count = count :=
  Nat.le_antisymm (lengthWith_le_iff.mpr ⟨Nat.le_refl count, h⟩) (le_lengthWith puts count)

theorem follow?_fillAll_object (h : ∀ put ∈ puts, put.1 ≠ []) {members : Members} {name : String}
    (hname : (Members.get? name members).isSome ∨ beyond (named name) puts ≠ [])
    (rest : List String) :
    (fillAll puts (.object members)).follow? (name :: rest)
      = (fillAll (beyond (named name) puts)
          ((Members.get? name members).getD .null)).follow? rest := by
  obtain ⟨filled, hfilled, hmembers⟩ := fillAll_object h members
  rw [hfilled, follow?_object, hmembers name, if_pos hname, Option.bind_some]

theorem follow?_fillAll_array (h : ∀ put ∈ puts, put.1 ≠ []) {items : List Json}
    {segment : String} {index : Nat} (hindex : FieldPath.readIndex? segment = some index)
    (hlt : index < lengthWith puts items.length) (rest : List String) :
    (fillAll puts (.array items)).follow? (segment :: rest)
      = (fillAll (beyond (indexed index) puts) (items[index]?.getD .null)).follow? rest := by
  obtain ⟨filled, hfilled, hlength, hitems⟩ := fillAll_array h items
  rw [hfilled, follow?_array_of_index filled hindex, hitems index (hlength ▸ hlt),
    Option.bind_some]

theorem WellFormed.fillAll {slot : Json} (hslot : slot.WellFormed)
    (hputs : ∀ put ∈ puts, put.2.WellFormed) : (fillAll puts slot).WellFormed := by
  induction puts generalizing slot with
  | nil => exact hslot
  | cons put rest ih =>
      obtain ⟨hput, hrest⟩ := List.forall_mem_cons.mp hputs
      exact ih (hput.insertAt put.1 (hslot.makeWay put.1)) hrest

end Json

end RecordQuery
