import RecordQuery.Arrangement.Projection
import RecordQuery.Proofs.FieldPath.Following

/-!
# Putting values at places

The step behind projection, one container at a time. A value put at a
path goes to one slot of the container, which is a member of an object
or an element of an array, and what that slot holds then depends only on
what it held before (`Json.fill`). The other slots stay as they are, but
for the elements with which an array is filled up.

A projection is a run of such steps, one for each key that leads
somewhere in the record (`project_eq_putAll`).
-/

namespace RecordQuery

/-! ## Indices -/

theorem Text.readNatural?_of_readWord? {radix n : Nat} {text : List Char}
    (h : Text.readWord? radix text = some n) : Text.readNatural? radix text = some n :=
  (Option.filter_eq_some_iff.mp h).1

/-- A segment that makes an array is read as the same index. -/
theorem readIndex?_of_digitIndex? {segment : String} {index : Nat}
    (h : digitIndex? segment = some index) : FieldPath.readIndex? segment = some index := by
  rw [digitIndex?, Option.ite_none_right_eq_some] at h
  exact Text.readNatural?_of_readWord? h.2

namespace Json

/-! ## Slots -/

/-- What a slot holds after a value has been put at a path from there. -/
def fill (value : Json) (path : List String) (slot : Json) : Json :=
  insertAt value path (makeWay path slot)

/-- A container stays where a path goes through it. -/
theorem fill_of_isContainer (value : Json) (path : List String) {slot : Json}
    (h : slot.isContainer = true) : fill value path slot = insertAt value path slot := by
  cases path with
  | nil => rfl
  | cons segment rest => rw [fill, makeWay, if_pos h]

/-- Anything else makes way for the container that the path asks for. -/
theorem fill_of_not_isContainer (value : Json) (segment : String) (rest : List String)
    {slot : Json} (h : slot.isContainer = false) :
    fill value (segment :: rest) slot
      = insertAt value (segment :: rest) (containerFor segment) := by
  rw [fill, makeWay, h]
  rfl

theorem containerFor_of_index {segment : String} {index : Nat}
    (h : digitIndex? segment = some index) : containerFor segment = .array [] := by
  rw [containerFor, h]
  rfl

theorem containerFor_of_not_index {segment : String} (h : digitIndex? segment = none) :
    containerFor segment = .object [] := by
  rw [containerFor, h]
  rfl

theorem insertAt_object (value : Json) (segment : String) (rest : List String)
    (members : Members) :
    insertAt value (segment :: rest) (.object members)
      = .object (Members.insert segment
          (fill value rest ((Members.get? segment members).getD .null)) members) := by
  rw [insertAt]
  rfl

theorem insertAt_array_of_index (value : Json) {segment : String} {index : Nat}
    (h : digitIndex? segment = some index) (rest : List String) (items : List Json) :
    insertAt value (segment :: rest) (.array items)
      = .array ((padTo index items).set index (fill value rest (items[index]?.getD .null))) := by
  rw [insertAt, h]
  rfl

theorem insertAt_array_of_not_index (value : Json) {segment : String}
    (h : digitIndex? segment = none) (rest : List String) (items : List Json) :
    insertAt value (segment :: rest) (.array items) = .array items := by
  rw [insertAt, h]

/-! ## Padded arrays -/

theorem length_padTo (index : Nat) (items : List Json) :
    (padTo index items).length = max items.length (index + 1) := by
  rw [padTo, List.length_append, List.length_replicate]
  omega

/-- The element put in stands at its index, those before are as they were, and the array is
filled up with `null` in between. -/
theorem getElem?_set_padTo (index : Nat) (items : List Json) (item : Json) (i : Nat) :
    ((padTo index items).set index item)[i]?
      = if i = index then some item
        else if i < items.length then items[i]?
        else if i < index then some .null else none := by
  rw [List.getElem?_set, length_padTo]
  by_cases hindex : i = index
  · subst hindex
    rw [if_pos rfl, if_pos rfl, if_pos (by omega)]
  · rw [if_neg (Ne.symm hindex), if_neg hindex, padTo, List.getElem?_append,
      List.getElem?_replicate]
    split
    · rfl
    · by_cases hlt : i < index
      · rw [if_pos (by omega), if_pos hlt]
      · rw [if_neg (by omega), if_neg hlt]

/-! ## Well-formed results -/

theorem wellFormed_containerFor (segment : String) : (containerFor segment).WellFormed := by
  unfold containerFor
  split
  · exact .array fun _ h => absurd h List.not_mem_nil
  · exact .emptyObject

theorem WellFormed.makeWay {slot : Json} (h : slot.WellFormed) (path : List String) :
    (makeWay path slot).WellFormed := by
  cases path with
  | nil => exact h
  | cons segment rest =>
      rw [Json.makeWay]
      split
      · exact h
      · exact wellFormed_containerFor segment

theorem WellFormed.insertAt {value : Json} (hvalue : value.WellFormed) :
    ∀ (path : List String) {json : Json}, json.WellFormed → (insertAt value path json).WellFormed
  | [], _, _ => hvalue
  | segment :: rest, .object members, h => by
      have hslot : ((Members.get? segment members).getD .null).WellFormed := by
        cases hget : Members.get? segment members with
        | none => exact .null
        | some inner => exact h.member hget
      rw [insertAt_object]
      exact h.insert segment (hvalue.insertAt rest (hslot.makeWay rest))
  | segment :: rest, .array items, h => by
      cases hindex : digitIndex? segment with
      | none =>
          rw [insertAt_array_of_not_index value hindex]
          exact h
      | some index =>
          have hslot : (items[index]?.getD .null).WellFormed := by
            cases hget : items[index]? with
            | none => exact .null
            | some inner => exact h.item hget
          rw [insertAt_array_of_index value hindex]
          refine .array fun item hitem => ?_
          obtain ⟨i, hi⟩ := List.mem_iff_getElem?.mp hitem
          rw [getElem?_set_padTo] at hi
          split at hi
          · obtain rfl := Option.some.inj hi
            exact hvalue.insertAt rest (hslot.makeWay rest)
          · split at hi
            · exact h.item hi
            · split at hi
              · obtain rfl := Option.some.inj hi
                exact .null
              · cases hi
  | _ :: _, .null, h | _ :: _, .bool _, h | _ :: _, .number _, h | _ :: _, .string _, h => h

/-! ## Runs of steps -/

/-- A document with several values put in, one after the other. -/
def putAll (puts : List (List String × Json)) (json : Json) : Json :=
  puts.foldl (fun json put => insertAt put.2 put.1 json) json

end Json

/-- The paths of those keys that lead somewhere in a record, and what they lead to. -/
def found (record : Json) (keys : List FieldPath) : List (List String × Json) :=
  keys.filterMap fun key => (record.follow? key.segments).map fun value => (key.segments, value)

theorem mem_found {record : Json} {keys : List FieldPath} {path : List String} {value : Json} :
    (path, value) ∈ found record keys
      ↔ (∃ key ∈ keys, key.segments = path) ∧ record.follow? path = some value := by
  simp only [found, List.mem_filterMap, Option.map_eq_some_iff, Prod.mk.injEq]
  constructor
  · rintro ⟨key, hkey, value', hvalue, rfl, rfl⟩
    exact ⟨⟨key, hkey, rfl⟩, hvalue⟩
  · rintro ⟨⟨key, hkey, rfl⟩, hvalue⟩
    exact ⟨key, hkey, value, hvalue, rfl, rfl⟩

theorem found_cons {record : Json} {key : FieldPath} {value : Json}
    (h : record.follow? key.segments = some value) (rest : List FieldPath) :
    found record (key :: rest) = (key.segments, value) :: found record rest :=
  List.filterMap_cons_some (by rw [h]; rfl)

theorem foldl_pick_eq_putAll (record : Json) :
    ∀ (keys : List FieldPath) (picked : Json),
      keys.foldl (pick record) picked = Json.putAll (found record keys) picked
  | [], _ => rfl
  | key :: rest, picked => by
      rw [List.foldl_cons, foldl_pick_eq_putAll record rest, pick, FieldPath.toJson?_resolve]
      cases hvalue : record.follow? key.segments with
      | none =>
          have hfound : found record (key :: rest) = found record rest :=
            List.filterMap_cons_none (by rw [hvalue]; rfl)
          rw [hfound]
      | some value =>
          rw [found_cons hvalue]
          rfl

theorem project_eq_putAll {keys : List FieldPath} (h : keys ≠ []) (record : Json) :
    project keys record = Json.putAll (found record keys) (.object []) := by
  rw [project, List.isEmpty_eq_false_iff.mpr h, ← foldl_pick_eq_putAll]
  rfl

theorem Json.WellFormed.putAll {record : Json} (hrecord : record.WellFormed)
    {keys : List FieldPath} {json : Json} (h : json.WellFormed) :
    (Json.putAll (found record keys) json).WellFormed := by
  have hfold : ∀ (puts : List (List String × Json)) (json : Json),
      (∀ put ∈ puts, put.2.WellFormed) → json.WellFormed → (Json.putAll puts json).WellFormed := by
    intro puts
    induction puts with
    | nil => exact fun _ _ hjson => hjson
    | cons put rest ih =>
        intro json hputs hjson
        obtain ⟨hput, hrest⟩ := List.forall_mem_cons.mp hputs
        exact ih _ hrest (hput.insertAt put.1 hjson)
  exact hfold _ json (fun put hput => hrecord.follow? (mem_found.mp hput).2) h

end RecordQuery
