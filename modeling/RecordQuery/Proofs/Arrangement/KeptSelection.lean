import RecordQuery.Proofs.Arrangement.Room
import RecordQuery.Proofs.Arrangement.Yields
import RecordQuery.Proofs.FieldPath.Elements

/-!
# What projection keeps

Selected fields share the containers that are built for them, and whether
a container is an array or an object is settled by the first key that
goes through it. So a field can get lost, or another value can come to
stand at its place. What a key finds in the projection is what the run of
the selected keys yields there (`Yields`).

This comes apart from the record in three ways only (`Collides`): in an
array that is built in the place of an object a key has no slot of its
own, a key that goes on from an array otherwise than by an index in digits
finds something else there, or a string has given way to an object because
its length was selected. The proof follows the key through the runs on the
slots on its way. At first such a slot is empty, and as soon as a key ends
there it holds what the record holds, of which further keys only ask for
what is there already.
-/

namespace RecordQuery

variable {puts : List (List String × Json)}

/-! ## Puts taken from a document -/

/-- Each value is the one that the document has at its path. -/
def TakenFrom (source : Json) (puts : List (List String × Json)) : Prop :=
  ∀ put ∈ puts, source.follow? put.1 = some put.2

theorem takenFrom_found (record : Json) (keys : List FieldPath) :
    TakenFrom record (found record keys) :=
  fun _ hput => (mem_found.mp hput).2

namespace TakenFrom

variable {source : Json}

theorem beyond_named {name : String} {value : Json} (h : TakenFrom source puts)
    (hvalue : source.follow? [name] = some value) :
    TakenFrom value (beyond (named name) puts) := by
  intro put hput
  have hfollow := h _ (mem_beyond_named.mp hput)
  rwa [Json.follow?_cons, hvalue] at hfollow

/-- All spellings of an index lead to the same element of an array. -/
theorem beyond_indexed {items : List Json} {index : Nat} {item : Json}
    (h : TakenFrom (.array items) puts) (hitem : items[index]? = some item) :
    TakenFrom item (beyond (indexed index) puts) := by
  intro put hput
  obtain ⟨segment, hsegment, hmem⟩ := mem_beyond_indexed.mp hput
  have hfollow := h _ hmem
  rwa [Json.follow?_array_of_index items (readIndex?_of_digitIndex? hsegment), hitem] at hfollow

theorem lt_of_beyond_indexed {items : List Json} (h : TakenFrom (.array items) puts) (index : Nat)
    (hne : beyond (indexed index) puts ≠ []) : index < items.length := by
  obtain ⟨⟨path, value⟩, hmem⟩ := List.exists_mem_of_ne_nil _ hne
  obtain ⟨segment, hsegment, hput⟩ := mem_beyond_indexed.mp hmem
  have hfollow := h _ hput
  rw [Json.follow?_array_of_index items (readIndex?_of_digitIndex? hsegment)] at hfollow
  obtain ⟨item, hitem, -⟩ := Option.bind_eq_some_iff.mp hfollow
  exact (List.getElem?_eq_some_iff.mp hitem).1

/-- Puts on a slot either all lead further, or the last one that ends there starts the run anew
from the whole document. -/
theorem nonempty_or_restart (h : TakenFrom source puts) :
    (∀ put ∈ puts, put.1 ≠ []) ∨ ∃ after, TakenFrom source after ∧ (∀ put ∈ after, put.1 ≠ [])
      ∧ weight after < weight puts
      ∧ ∀ slot, Json.fillAll puts slot = Json.fillAll after source := by
  rcases nonempty_or_last_ending puts with hputs | ⟨before, whole, after, rfl, hafter⟩
  · exact .inl hputs
  · obtain ⟨hwhole, htaken⟩ := List.forall_mem_cons.mp (List.forall_mem_append.mp h).2
    obtain rfl := Option.some.inj hwhole
    refine .inr ⟨after, htaken, hafter, ?_, fun slot => Json.fillAll_ending before after _ slot⟩
    rw [weight_append, weight_cons]
    omega

/-- A run on the whole document is one of puts that all lead further. -/
theorem exists_nonempty (h : TakenFrom source puts) :
    ∃ after, TakenFrom source after ∧ (∀ put ∈ after, put.1 ≠ []) ∧ weight after ≤ weight puts
      ∧ Json.fillAll puts source = Json.fillAll after source := by
  rcases h.nonempty_or_restart with hputs | ⟨after, htaken, hafter, hlt, hrun⟩
  · exact ⟨puts, h, hputs, Nat.le_refl _, rfl⟩
  · exact ⟨after, htaken, hafter, Nat.le_of_lt hlt, hrun source⟩

/-- Nothing further is taken from a document that has no parts. -/
theorem eq_nil_of_leaf (h : TakenFrom source puts) (hputs : ∀ put ∈ puts, put.1 ≠ [])
    (hleaf : ∀ segment rest, source.follow? (segment :: rest) = none) : puts = [] := by
  refine List.eq_nil_iff_forall_not_mem.mpr fun put hput => ?_
  obtain ⟨segment, rest, hpath⟩ := List.exists_cons_of_ne_nil (hputs put hput)
  have hfollow := h put hput
  rw [hpath, hleaf] at hfollow
  cases hfollow

/-- Puts that all end at a slot leave their value there. -/
theorem fillAll_of_leaf (h : TakenFrom source puts) (hne : puts ≠ [])
    (hleaf : ∀ segment rest, source.follow? (segment :: rest) = none) (slot : Json) :
    Json.fillAll puts slot = source := by
  rcases h.nonempty_or_restart with hputs | ⟨after, htaken, hafter, -, hrun⟩
  · exact absurd (h.eq_nil_of_leaf hputs hleaf) hne
  · rw [hrun, htaken.eq_nil_of_leaf hafter hleaf]
    rfl

end TakenFrom

/-! ## Collisions -/

/-- The segments are the same, or spell one index in digits. -/
def SpellsAlike (segment other : String) : Prop :=
  other = segment
    ∨ ∃ index, digitIndex? segment = some index ∧ digitIndex? other = some index

/-- Some put goes on from a place by another spelling of the index that a segment spells. -/
def IsSpelledOtherwise (puts : List (List String × Json)) (place : List String)
    (segment : String) : Prop :=
  ∃ place' other rest value, (place' ++ other :: rest, value) ∈ puts
    ∧ List.Forall₂ SpellsAlike place place' ∧ SpellsAlike segment other ∧ other ≠ segment

/-- The puts that lead to an element are those that go on as a segment does, if none spells its
index otherwise. -/
theorem beyond_indexed_eq_named {segment : String} {index : Nat}
    (hindex : digitIndex? segment = some index) (h : ¬ IsSpelledOtherwise puts [] segment) :
    beyond (indexed index) puts = beyond (named segment) puts := by
  refine beyond_congr fun other rest value hmem => decide_eq_decide.mpr ⟨fun hother => ?_, ?_⟩
  · by_contra hne
    exact h ⟨[], other, rest, value, hmem, .nil, .inr ⟨index, hindex, hother⟩, hne⟩
  · rintro rfl
    exact hindex

/-- The ways in which what puts build at a path can come apart from the document that their
values are taken from. -/
inductive Collides (source : Json) (puts : List (List String × Json)) (target : Json)
    (path : List String) : Prop where
  /-- In an array that is in the place of an object, the path does not go on by an index in digits,
  or shares the element with another spelling of its index. -/
  | noSlot (place : List String) (segment : String) (rest : List String)
      (members : Members) (items : List Json) (hpath : path = place ++ segment :: rest)
      (hsource : source.follow? place = some (.object members))
      (htarget : target.follow? place = some (.array items))
      (hsegment : digitIndex? segment = none ∨ IsSpelledOtherwise puts place segment)
  /-- The path goes on from an array by another segment than an index in digits, and that leads to
  something else in the array that is in the place of it. -/
  | otherElement (place : List String) (segment : String) (rest : List String)
      (items others : List Json) (hpath : path = place ++ segment :: rest)
      (hsource : source.follow? place = some (.array items))
      (htarget : target.follow? place = some (.array others))
      (hsegment : digitIndex? segment = none)
      (hne : (Json.array others).follow? [segment] ≠ (Json.array items).follow? [segment])
  /-- There is an object in the place of a string, at the path or beyond it. -/
  | objectForString (rest : List String) (s : String) (members : Members)
      (hsource : source.follow? (path ++ rest) = some (.string s))
      (htarget : target.follow? (path ++ rest) = some (.object members))

namespace Collides

variable {source target inner targetInner : Json} {innerPuts : List (List String × Json)}
  {segment : String} {path : List String}

/-- A collision further on is one on the whole way. -/
theorem cons (hsource : source.follow? [segment] = some inner)
    (hputs : ∀ put ∈ innerPuts, ∃ other, SpellsAlike segment other
      ∧ (other :: put.1, put.2) ∈ puts)
    (htarget : ∀ rest, target.follow? (segment :: rest) = targetInner.follow? rest)
    (h : Collides inner innerPuts targetInner path) :
    Collides source puts target (segment :: path) := by
  have hstep : ∀ rest, source.follow? (segment :: rest) = inner.follow? rest := fun rest => by
    rw [Json.follow?_cons, hsource, Option.bind_some]
  cases h with
  | noSlot place next rest members items hpath hobject harray hnext =>
      refine .noSlot (segment :: place) next rest members items (congrArg (segment :: ·) hpath)
        ((hstep place).trans hobject) ((htarget place).trans harray) (hnext.imp_right ?_)
      rintro ⟨place', other, others, value, hmem, hplace, halike, hne⟩
      obtain ⟨first, hfirst, hput⟩ := hputs _ hmem
      exact ⟨first :: place', other, others, value, hput, .cons hfirst hplace, halike, hne⟩
  | otherElement place next rest items others hpath harray hother hnext hne =>
      exact .otherElement (segment :: place) next rest items others
        (congrArg (segment :: ·) hpath) ((hstep place).trans harray)
        ((htarget place).trans hother) hnext hne
  | objectForString rest s members hstring hobject =>
      exact .objectForString rest s members ((hstep _).trans hstring) ((htarget _).trans hobject)

theorem cons_named (hsource : source.follow? [segment] = some inner)
    (htarget : ∀ rest, target.follow? (segment :: rest) = targetInner.follow? rest)
    (h : Collides inner (beyond (named segment) puts) targetInner path) :
    Collides source puts target (segment :: path) :=
  h.cons hsource (fun _ hput => ⟨segment, .inl rfl, mem_beyond_named.mp hput⟩) htarget

theorem cons_indexed {index : Nat} (hindex : digitIndex? segment = some index)
    (hsource : source.follow? [segment] = some inner)
    (htarget : ∀ rest, target.follow? (segment :: rest) = targetInner.follow? rest)
    (h : Collides inner (beyond (indexed index) puts) targetInner path) :
    Collides source puts target (segment :: path) := by
  refine h.cons hsource (fun put hput => ?_) htarget
  obtain ⟨other, hother, hmem⟩ := mem_beyond_indexed.mp hput
  exact ⟨other, .inr ⟨index, hindex, hother⟩, hmem⟩

/-- Collisions that take no put are collisions with all puts. -/
theorem of_nil (h : Collides source [] target path) : Collides source puts target path := by
  cases h with
  | noSlot place next rest members items hpath hobject harray hnext =>
      refine .noSlot place next rest members items hpath hobject harray (hnext.imp_right ?_)
      rintro ⟨_, _, _, _, hmem, -⟩
      exact absurd hmem List.not_mem_nil
  | otherElement place next rest items others hpath harray hother hnext hne =>
      exact .otherElement place next rest items others hpath harray hother hnext hne
  | objectForString rest s members hstring hobject =>
      exact .objectForString rest s members hstring hobject

/-- Where an array is in the place of an array, a segment that is not an index in digits leads to
the same, or collides. -/
theorem or_of_not_index {items others : List Json} {value : Json}
    (hsegment : digitIndex? segment = none)
    (hvalue : (Json.array items).follow? (segment :: path) = some value) :
    (Json.array others).follow? (segment :: path) = some value
      ∨ Collides (.array items) puts (.array others) (segment :: path) := by
  by_cases hsame : (Json.array others).follow? [segment] = (Json.array items).follow? [segment]
  · rw [Json.follow?_cons, hsame, ← Json.follow?_cons]
    exact .inl hvalue
  · exact .inr (.otherElement [] segment path items others rfl rfl rfl hsegment hsame)

end Collides

/-! ## Slots that hold what the record holds -/

namespace TakenFrom

/-- A run on an object of puts taken from it is one on each member. -/
theorem fillAll_object {members : Members} (h : TakenFrom (.object members) puts)
    (hputs : ∀ put ∈ puts, put.1 ≠ []) :
    ∃ filled, Json.fillAll puts (.object members) = .object filled
      ∧ ∀ name, Members.get? name filled
        = (Members.get? name members).map (Json.fillAll (beyond (named name) puts)) := by
  obtain ⟨filled, hfilled, hget⟩ := Json.fillAll_object hputs members
  refine ⟨filled, hfilled, fun name => ?_⟩
  rw [hget name]
  cases hvalue : Members.get? name members with
  | some value => exact if_pos (.inl rfl)
  | none =>
      have hnone : beyond (named name) puts = [] :=
        List.eq_nil_iff_forall_not_mem.mpr fun ⟨path, value⟩ hput => by
          have hfollow := h _ (mem_beyond_named.mp hput)
          rw [Json.follow?_object, hvalue] at hfollow
          cases hfollow
      rw [hnone]
      rfl

/-- A run on an array of puts taken from it is one on each element. -/
theorem fillAll_array {items : List Json} (h : TakenFrom (.array items) puts)
    (hputs : ∀ put ∈ puts, put.1 ≠ []) :
    ∃ filled, Json.fillAll puts (.array items) = .array filled
      ∧ ∀ i : Nat, filled[i]? = items[i]?.map (Json.fillAll (beyond (indexed i) puts)) := by
  obtain ⟨filled, hfilled, hlength, hget⟩ := Json.fillAll_array hputs items
  rw [Json.lengthWith_eq h.lt_of_beyond_indexed] at hlength
  refine ⟨filled, hfilled, fun i => ?_⟩
  by_cases hlt : i < items.length
  · rw [hget i (hlength ▸ hlt), List.getElem?_eq_getElem hlt]
    rfl
  · rw [List.getElem?_eq_none (by omega), List.getElem?_eq_none (by omega)]
    rfl

/-- A string has only its length taken from it, for which an object takes its place. -/
theorem fillAll_string {s : String} (h : TakenFrom (.string s) puts) (hne : puts ≠ [])
    (hputs : ∀ put ∈ puts, put.1 ≠ []) :
    ∃ filled, Json.fillAll puts (.string s) = .object filled
      ∧ Members.get? "length" filled = (Json.string s).follow? ["length"] := by
  obtain ⟨put, others, rfl⟩ := List.exists_cons_of_ne_nil hne
  obtain ⟨segment, rest, value, rfl, -⟩ := exists_segment_of_nonempty hputs
  have hvalue : (Json.string s).follow? (segment :: rest) = some value := h _ List.mem_cons_self
  obtain ⟨⟨rfl, rfl⟩, hlength⟩ := Json.lengthAt?_eq_some.mp hvalue
  have hobject : Json.containerFor "length" = .object [] := by decide +kernel
  have hopened : Json.openedFor ((["length"], value) :: others) (.string s) = .object [] := hobject
  have hleaf : ∀ segment rest, value.follow? (segment :: rest) = none := fun _ _ => by
    rw [← hlength]
    rfl
  have hbeyond : beyond (named "length") ((["length"], value) :: others) ≠ [] := by
    rw [beyond_cons_of_leads (decide_eq_true rfl)]
    exact List.cons_ne_nil _ _
  obtain ⟨filled, hfilled, hget⟩ := Json.fillAll_object hputs []
  refine ⟨filled, (Json.fillAll_of_openedFor hopened).trans hfilled, ?_⟩
  rw [hget "length", if_pos (.inr hbeyond),
    (h.beyond_named hvalue).fillAll_of_leaf hbeyond hleaf]
  exact hvalue.symm

/-- Puts taken from a document leave it as it is, unless an object comes to stand in the place of
a string. -/
theorem fillAll_self {source : Json} (h : TakenFrom source puts) (hwf : source.WellFormed)
    (hstrings : ∀ rest s members, source.follow? rest = some (.string s) →
      (Json.fillAll puts source).follow? rest ≠ some (.object members)) :
    Json.fillAll puts source = source := by
  induction hsize : weight puts using Nat.strongRecOn generalizing puts source with
  | _ size ih =>
    subst hsize
    obtain ⟨after, htaken, hafter, hle, hrun⟩ := h.exists_nonempty
    rw [hrun] at hstrings ⊢
    by_cases hne : after = []
    · rw [hne]
      rfl
    · have hlt : ∀ leads, weight (beyond leads after) < weight puts := fun leads =>
        Nat.lt_of_lt_of_le (weight_beyond_lt hne leads) hle
      cases source with
      | object members =>
          obtain ⟨filled, hfilled, hget⟩ := htaken.fillAll_object hafter
          have hwfFilled : (Json.object filled).WellFormed := by
            rw [← hfilled]
            exact hwf.fillAll fun put hput => hwf.follow? (htaken put hput)
          rw [hfilled] at hstrings ⊢
          refine congrArg Json.object (hwfFilled.ascending.ext hwf.ascending fun name => ?_)
          rw [hget name]
          cases hvalue : Members.get? name members with
          | none => rfl
          | some value =>
              refine congrArg some (ih _ (hlt _) (htaken.beyond_named (Json.follow?_member hvalue))
                (hwf.member hvalue) (fun rest s inner hstring hobject => ?_) rfl)
              refine hstrings (name :: rest) s inner ?_ ?_
              · rw [Json.follow?_object, hvalue, Option.bind_some, hstring]
              · rw [Json.follow?_object, hget name, hvalue, Option.map_some, Option.bind_some,
                  hobject]
      | array items =>
          obtain ⟨filled, hfilled, hget⟩ := htaken.fillAll_array hafter
          rw [hfilled] at hstrings ⊢
          refine congrArg Json.array (List.ext_getElem? fun i => ?_)
          rw [hget i]
          cases hitem : items[i]? with
          | none => rfl
          | some item =>
              refine congrArg some (ih _ (hlt _) (htaken.beyond_indexed hitem)
                (hwf.item hitem) (fun rest s inner hstring hobject => ?_) rfl)
              have hindex := FieldPath.readIndex?_digitsOf i
              refine hstrings (String.ofList (Decimal.digitsOf i) :: rest) s inner ?_ ?_
              · rw [Json.follow?_array_of_index items hindex, hitem, Option.bind_some, hstring]
              · rw [Json.follow?_array_of_index filled hindex, hget i, hitem, Option.map_some,
                  Option.bind_some, hobject]
      | string s =>
          obtain ⟨filled, hfilled, -⟩ := htaken.fillAll_string hne hafter
          rw [hfilled] at hstrings
          exact absurd rfl (hstrings [] s filled rfl)
      | null | bool _ | number _ => exact absurd (htaken.eq_nil_of_leaf hafter fun _ _ => rfl) hne

/-- Where a slot holds what the record holds, puts taken from there keep what a path leads to, or
it collides with them. -/
theorem kept_or_collides_of_whole {path : List String} :
    ∀ {source : Json} {puts : List (List String × Json)} {value : Json},
      source.WellFormed → TakenFrom source puts → source.follow? path = some value →
      (Json.fillAll puts source).follow? path = some value
        ∨ Collides source [] (Json.fillAll puts source) path := by
  induction path with
  | nil =>
      intro source puts value hwf htaken hvalue
      by_cases hstrings : ∃ rest s members, source.follow? rest = some (.string s)
          ∧ (Json.fillAll puts source).follow? rest = some (.object members)
      · obtain ⟨rest, s, members, hstring, hobject⟩ := hstrings
        exact .inr (.objectForString rest s members hstring hobject)
      · rw [htaken.fillAll_self hwf fun rest s members hstring hobject =>
          hstrings ⟨rest, s, members, hstring, hobject⟩]
        exact .inl hvalue
  | cons segment path ih =>
      intro source puts value hwf htaken hvalue
      obtain ⟨after, htaken, hafter, -, hrun⟩ := htaken.exists_nonempty
      rw [hrun]
      cases source with
      | object members =>
          obtain ⟨filled, hfilled, hget⟩ := htaken.fillAll_object hafter
          obtain ⟨inner, hinner, hrest⟩ := Option.bind_eq_some_iff.mp hvalue
          have hstep := Json.follow?_member hinner
          have htarget : ∀ rest, (Json.fillAll after (.object members)).follow? (segment :: rest)
              = (Json.fillAll (beyond (named segment) after) inner).follow? rest := fun rest => by
            rw [hfilled, Json.follow?_object, hget segment, hinner, Option.map_some,
              Option.bind_some]
          exact (ih (hwf.member hinner) (htaken.beyond_named hstep) hrest).imp
            (htarget path).trans (Collides.cons_named hstep htarget)
      | array items =>
          obtain ⟨filled, hfilled, hget⟩ := htaken.fillAll_array hafter
          cases hdigits : digitIndex? segment with
          | none =>
              rw [hfilled]
              exact Collides.or_of_not_index hdigits hvalue
          | some index =>
              have hindex := readIndex?_of_digitIndex? hdigits
              rw [Json.follow?_array_of_index items hindex] at hvalue
              obtain ⟨inner, hinner, hrest⟩ := Option.bind_eq_some_iff.mp hvalue
              have htarget : ∀ rest, (Json.fillAll after (.array items)).follow? (segment :: rest)
                  = (Json.fillAll (beyond (indexed index) after) inner).follow? rest :=
                fun rest => by
                  rw [hfilled, Json.follow?_array_of_index filled hindex, hget index, hinner,
                    Option.map_some, Option.bind_some]
              exact (ih (hwf.item hinner) (htaken.beyond_indexed hinner) hrest).imp
                (htarget path).trans
                (Collides.cons_indexed hdigits (Json.follow?_element hindex hinner) htarget)
      | string s =>
          obtain ⟨⟨rfl, rfl⟩, -⟩ := Json.lengthAt?_eq_some.mp hvalue
          by_cases hne : after = []
          · rw [hne]
            exact .inl hvalue
          · obtain ⟨filled, hfilled, hlength⟩ := htaken.fillAll_string hne hafter
            rw [hfilled, Json.follow?_object, hlength, hvalue]
            exact .inl rfl
      | null | bool _ | number _ => cases hvalue

/-! ## Slots that are empty at first -/

/-- Where an array is built, the document has an array or an object. -/
theorem isContainer_of_index {source value : Json} (h : TakenFrom source puts) {segment : String}
    {index : Nat} {rest : List String} (hindex : digitIndex? segment = some index)
    (hmem : (segment :: rest, value) ∈ puts) : source.isContainer = true := by
  have hvalue : source.follow? (segment :: rest) = some value := h _ hmem
  cases source with
  | object _ | array _ => rfl
  | string s =>
      obtain ⟨⟨rfl, -⟩, -⟩ := Json.lengthAt?_eq_some.mp hvalue
      have hlength : digitIndex? "length" = none := by decide +kernel
      cases hlength.symm.trans hindex
  | null | bool _ | number _ => cases hvalue

/-- Where an array is built, a path that has a slot in it goes on to a run on that slot. -/
theorem kept_or_collides_in_array {source value : Json} {segment : String} {path : List String}
    (hwf : source.WellFormed) (h : TakenFrom source puts) (hputs : ∀ put ∈ puts, put.1 ≠ [])
    (hmem : (segment :: path, value) ∈ puts) (harray : Json.openedFor puts .null = .array [])
    (hcontainer : source.isContainer = true)
    (hbeyond : ∀ {leads inner}, inner.WellFormed → TakenFrom inner (beyond leads puts) →
      (path, value) ∈ beyond leads puts →
      (Json.fillAll (beyond leads puts) .null).follow? path = some value
        ∨ Collides inner (beyond leads puts) (Json.fillAll (beyond leads puts) .null) path) :
    (Json.fillAll puts .null).follow? (segment :: path) = some value
      ∨ Collides source puts (Json.fillAll puts .null) (segment :: path) := by
  have hvalue : source.follow? (segment :: path) = some value := h _ hmem
  obtain ⟨filled, hfilled, -⟩ := Json.fillAll_array hputs []
  replace hfilled := (Json.fillAll_of_openedFor harray).trans hfilled
  cases hdigits : digitIndex? segment with
  | none =>
      rw [hfilled]
      cases source with
      | object members =>
          exact .inr (.noSlot [] segment path members filled rfl rfl rfl (.inl hdigits))
      | array items => exact Collides.or_of_not_index hdigits hvalue
      | null | bool _ | number _ | string _ => cases hcontainer
  | some index =>
      have hindex := readIndex?_of_digitIndex? hdigits
      have hmemIndexed := mem_beyond_indexed.mpr ⟨segment, hdigits, hmem⟩
      have htarget : ∀ rest, (Json.fillAll puts .null).follow? (segment :: rest)
          = (Json.fillAll (beyond (indexed index) puts) .null).follow? rest := fun rest => by
        rw [Json.fillAll_of_openedFor harray, Json.follow?_fillAll_array hputs hindex
          (Json.lt_lengthWith_of_beyond (List.ne_nil_of_mem hmemIndexed) _)]
        rfl
      cases source with
      | object members =>
          by_cases hother : IsSpelledOtherwise puts [] segment
          · exact .inr (.noSlot [] segment path members filled rfl rfl (congrArg some hfilled)
              (.inr hother))
          · rw [beyond_indexed_eq_named hdigits hother] at htarget
            obtain ⟨inner, hinner, -⟩ := Option.bind_eq_some_iff.mp hvalue
            have hstep := Json.follow?_member hinner
            exact (hbeyond (hwf.member hinner) (h.beyond_named hstep)
              (mem_beyond_named.mpr hmem)).imp (htarget path).trans
              (Collides.cons_named hstep htarget)
      | array items =>
          rw [Json.follow?_array_of_index items hindex] at hvalue
          obtain ⟨item, hitem, -⟩ := Option.bind_eq_some_iff.mp hvalue
          exact (hbeyond (hwf.item hitem) (h.beyond_indexed hitem) hmemIndexed).imp
            (htarget path).trans
            (Collides.cons_indexed hdigits (Json.follow?_element hindex hitem) htarget)
      | null | bool _ | number _ | string _ => cases hcontainer

/-- A slot on the way of a path leads to its value after a run that has the path, or the path
collides with other puts. -/
theorem kept_or_collides {path : List String} :
    ∀ {source : Json} {puts : List (List String × Json)} {value : Json},
      source.WellFormed → TakenFrom source puts → (path, value) ∈ puts →
      (Json.fillAll puts .null).follow? path = some value
        ∨ Collides source puts (Json.fillAll puts .null) path := by
  induction path with
  | nil =>
      intro source puts value hwf htaken hmem
      rcases htaken.nonempty_or_restart with hputs | ⟨after, hafterTaken, -, -, hrun⟩
      · exact absurd rfl (hputs _ hmem)
      · rw [hrun]
        exact (kept_or_collides_of_whole hwf hafterTaken (htaken _ hmem)).imp_right
          Collides.of_nil
  | cons segment path ih =>
      intro source puts value hwf htaken hmem
      have hvalue : source.follow? (segment :: path) = some value := htaken _ hmem
      rcases htaken.nonempty_or_restart with hputs | ⟨after, hafterTaken, -, -, hrun⟩
      · rcases Json.openedFor_null (List.ne_nil_of_mem hmem) hputs with
          hobject | ⟨harray, first, index, rest, firstValue, hfirst, hfirstMem⟩
        · obtain ⟨inner, hstep, -⟩ := Option.bind_eq_some_iff.mp
            ((Json.follow?_cons source segment path).symm.trans hvalue)
          have hbeyond := mem_beyond_named.mpr hmem
          have htarget : ∀ rest, (Json.fillAll puts .null).follow? (segment :: rest)
              = (Json.fillAll (beyond (named segment) puts) .null).follow? rest := fun rest => by
            rw [Json.fillAll_of_openedFor hobject,
              Json.follow?_fillAll_object hputs (.inr (List.ne_nil_of_mem hbeyond))]
            rfl
          exact (ih (hwf.follow? hstep) (htaken.beyond_named hstep) hbeyond).imp
            (htarget path).trans (Collides.cons_named hstep htarget)
        · exact htaken.kept_or_collides_in_array hwf hputs hmem harray
            (htaken.isContainer_of_index hfirst hfirstMem) ih
      · rw [hrun]
        exact (kept_or_collides_of_whole hwf hafterTaken hvalue).imp_right Collides.of_nil

end TakenFrom

/-! ## The projection -/

/-- A projection is what the run of the keys that lead somewhere makes of an empty object. -/
theorem project_eq_fillAll {keys : List FieldPath} (h : keys ≠ []) (record : Json) :
    project keys record = Json.fillAll (found record keys) (.object [])
      ∧ ∀ put ∈ found record keys, put.1 ≠ [] := by
  have hputs : ∀ put ∈ found record keys, put.1 ≠ [] := by
    intro put hput
    obtain ⟨⟨key, -, hkey⟩, -⟩ := mem_found.mp hput
    exact hkey ▸ key.segments_ne_nil
  exact ⟨(project_eq_putAll h record).trans (Json.putAll_eq_fillAll hputs []), hputs⟩

/-- **What projection keeps.** Where a record can be cut down to some keys, one of them that
resolves in the record resolves to the same value in the projection exactly if the run of the
keys yields that value there. It does unless the key collides with others: unless it has no element of
its own in an array that is in the place of an object, or goes on from an array otherwise than by
an index in digits and finds something else there, or selects a string that an object has taken
the place of. -/
theorem resolve_project_iff_yields {record : Json} (hrecord : record.WellFormed)
    {keys : List FieldPath} {projected : Json} (hprojected : project? keys record = some projected)
    {key : FieldPath} (hkey : key ∈ keys) {value : Json}
    (hvalue : (key.resolve record).toJson? = some value) :
    ((key.resolve projected).toJson? = some value
      ↔ Yields (found record keys) (.object []) key.segments value)
    ∧ ((key.resolve projected).toJson? = some value
      ∨ Collides record (found record keys) projected key.segments) := by
  rw [FieldPath.toJson?_resolve] at hvalue ⊢
  have htaken := takenFrom_found record keys
  obtain ⟨hproject, hputs⟩ := project_eq_fillAll (List.ne_nil_of_mem hkey) record
  rw [eq_project_of_project? hprojected, hproject]
  refine ⟨Json.follow?_fillAll_eq_some_iff .emptyObject fun put hput =>
    hrecord.follow? (htaken put hput), ?_⟩
  have hmem : (key.segments, value) ∈ found record keys :=
    mem_found.mpr ⟨⟨key, hkey, rfl⟩, hvalue⟩
  obtain ⟨segment, rest, hsegments⟩ := List.exists_cons_of_ne_nil key.segments_ne_nil
  rw [hsegments] at hmem hvalue ⊢
  have hbeyond := mem_beyond_named.mpr hmem
  obtain ⟨inner, hstep, -⟩ := Option.bind_eq_some_iff.mp
    ((Json.follow?_cons record segment rest).symm.trans hvalue)
  have htarget : ∀ path,
      (Json.fillAll (found record keys) (.object [])).follow? (segment :: path)
        = (Json.fillAll (beyond (named segment) (found record keys)) .null).follow? path :=
    fun path => Json.follow?_fillAll_object hputs (.inr (List.ne_nil_of_mem hbeyond)) path
  exact (TakenFrom.kept_or_collides (hrecord.follow? hstep) (htaken.beyond_named hstep)
    hbeyond).imp (htarget rest).trans (Collides.cons_named hstep htarget)

/-- A key puts back the text inside a value that another key selects, and the element of an array
is found by any spelling of its index, but a name has no place in an array that is built for an
object. -/
theorem resolve_project_iff_yields_of_document :
    let seven : Json := .ofInt 7 (by decide)
    let eight : Json := .ofInt 8 (by decide)
    let text : Json := .object [("b", .string "hi")]
    let record : Json := .object [("c", .object [("0", .bool true), ("x", .bool false)]),
      ("r", .array [seven, eight]), ("t", text)]
    let keys : List FieldPath := [⟨"t"⟩, ⟨"t.b.length"⟩, ⟨"t.b"⟩, ⟨"r.1"⟩, ⟨"r.01"⟩, ⟨"r.+1"⟩,
      ⟨"c.0"⟩, ⟨"c.x"⟩]
    let projected : Json := .object [("c", .array [.bool true]), ("r", .array [.null, eight]),
      ("t", text)]
    record.WellFormed ∧ project? keys record = some projected
      ∧ Yields (found record keys) (.object []) ["t"] text
      ∧ Yields (found record keys) (.object []) ["r", "01"] eight
      ∧ Yields (found record keys) (.object []) ["r", "+1"] eight
      ∧ ¬ Yields (found record keys) (.object []) ["c", "x"] (.bool false)
      ∧ Collides record (found record keys) projected ["c", "x"] := by
  intro seven eight text record keys projected
  have hrecord : record.WellFormed := .of_isWellFormed (by decide +kernel)
  have hprojected : project? keys record = some projected := by decide +kernel
  have hkept : ∀ key ∈ keys, ∀ value, (key.resolve record).toJson? = some value →
      (key.resolve projected).toJson? = some value →
      Yields (found record keys) (.object []) key.segments value := fun key hkey value hvalue =>
    (resolve_project_iff_yields hrecord hprojected hkey hvalue).1.mp
  obtain ⟨hyields, hcollides⟩ := resolve_project_iff_yields hrecord hprojected
    (show ⟨"c.x"⟩ ∈ keys by decide) (show _ = some (.bool false) by decide +kernel)
  have hlost : (FieldPath.resolve ⟨"c.x"⟩ projected).toJson? ≠ some (.bool false) := by
    decide +kernel
  exact ⟨hrecord, hprojected,
    hkept ⟨"t"⟩ (by decide) text (by decide +kernel) (by decide +kernel),
    hkept ⟨"r.01"⟩ (by decide) eight (by decide +kernel) (by decide +kernel),
    hkept ⟨"r.+1"⟩ (by decide) eight (by decide +kernel) (by decide +kernel),
    fun h => hlost (hyields.mpr h), hcollides.resolve_left hlost⟩

/-- One of several distinct keys resolves in a record, and not to the same value in the
projection onto them. -/
def Loses (record : Json) (keys : List FieldPath) (key : FieldPath) : Prop :=
  keys.Nodup ∧ key ∈ keys ∧ key.resolve record ≠ .undefined ∧ (project? keys record).isSome
    ∧ (key.resolve (project keys record)).toJson? ≠ (key.resolve record).toJson?

instance (record : Json) (keys : List FieldPath) (key : FieldPath) :
    Decidable (Loses record keys key) :=
  inferInstanceAs (Decidable (_ ∧ _ ∧ _ ∧ _ ∧ _))

/-- A name has no place in the array that is built for an index, two spellings of an index are
one place there, and the length of a string takes the string's place. -/
theorem project_loses_selected_fields :
    let mixed : Json := .object [("a", .object [("0", .bool true), ("b", .bool false)])]
    let spelled : Json := .object [("a", .object [("0", .bool true), ("00", .bool false)])]
    let text : Json := .object [("a", .string "hi")]
    (mixed.WellFormed ∧ Loses mixed [⟨"a.0"⟩, ⟨"a.b"⟩] ⟨"a.b"⟩)
      ∧ (spelled.WellFormed ∧ Loses spelled [⟨"a.0"⟩, ⟨"a.00"⟩] ⟨"a.0"⟩)
      ∧ (text.WellFormed ∧ Loses text [⟨"a"⟩, ⟨"a.length"⟩] ⟨"a"⟩) :=
  ⟨⟨.of_isWellFormed (by decide +kernel), by decide +kernel⟩,
    ⟨.of_isWellFormed (by decide +kernel), by decide +kernel⟩,
    ⟨.of_isWellFormed (by decide +kernel), by decide +kernel⟩⟩

end RecordQuery
