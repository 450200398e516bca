import RecordQuery.Proofs.FieldPath.Following

/-!
# Paths in two parts

Two paths with a dot between them are one path, whose segments are those of
the first and then those of the second, odd ones included (`segments_join`).
It leads where the second path leads from what the first one leads to
(`resolve_join`).

Resolution looks at what comes behind a segment in one place only, where it
asks whether `length` is the last one. The proof goes along the segments of
the first path. Behind its end there is always a segment of the second, so a
count within the first path is followed by something and leads to nothing,
while at its end the first path leads to the count, a number, and nothing
lies below a number either.
-/

namespace RecordQuery

namespace FieldPath

/-! ## Segments of a joined path -/

/-- The path that goes on with another one, behind a dot. -/
def join (path rest : FieldPath) : FieldPath :=
  ⟨path.text ++ "." ++ rest.text⟩

theorem splitDots_ne_nil (text : List Char) : splitDots text ≠ [] := by
  cases text with
  | nil => exact List.cons_ne_nil _ _
  | cons c rest =>
      rw [splitDots]
      split
      · exact List.cons_ne_nil _ _
      · split <;> exact List.cons_ne_nil _ _

theorem segments_ne_nil (path : FieldPath) : path.segments ≠ [] := by
  rw [segments, Ne, List.map_eq_nil_iff]
  exact splitDots_ne_nil path.text.toList

/-- A dot ends the last part before it. -/
theorem splitDots_append_dot (rest : List Char) :
    ∀ text : List Char, splitDots (text ++ '.' :: rest) = splitDots text ++ splitDots rest
  | [] => rfl
  | c :: text => by
      have ih := splitDots_append_dot rest text
      rw [List.cons_append, splitDots, splitDots]
      by_cases hc : c = '.'
      · rw [if_pos hc, if_pos hc, ih, List.cons_append]
      · obtain ⟨first, others, hsplit⟩ := List.exists_cons_of_ne_nil (splitDots_ne_nil text)
        rw [if_neg hc, if_neg hc, ih, hsplit]
        rfl

theorem segments_join (path rest : FieldPath) :
    (path.join rest).segments = path.segments ++ rest.segments := by
  have htext : (path.join rest).text.toList
      = path.text.toList ++ '.' :: rest.text.toList := by
    simp [join]
  rw [segments, htext, splitDots_append_dot, List.map_append, segments, segments]

end FieldPath

/-! ## Going on from a value -/

namespace FieldValue

/-- The place below which the parts of the value stand. For what is no container any place would
do, since nothing in it has one. -/
def place : FieldValue → Place
  | array place _ | object place _ => place
  | _ => .root 0

/-- The value as it is wherever it stands. -/
def unplaced : FieldValue → FieldValue
  | array _ items => array (.root 0) items
  | object _ members => object (.root 0) members
  | v => v

/-- The value that segments lead to from a value. -/
def goOn (v : FieldValue) (segments : List String) : FieldValue :=
  match v.toJson? with
  | some json => FieldPath.resolveSegments v.place json segments
  | none => undefined

theorem goOn_ofJson (place : Place) (json : Json) {segments : List String}
    (h : segments ≠ []) :
    (ofJson place json).goOn segments = FieldPath.resolveSegments place json segments := by
  obtain ⟨segment, rest, rfl⟩ := List.exists_cons_of_ne_nil h
  rw [goOn, toJson?_ofJson]
  -- What is no container has lost its place, but no segment below it asks for that.
  cases json <;> rfl

/-- Nothing lies below a number. -/
theorem goOn_number (n : Number) {segments : List String} (h : segments ≠ []) :
    (number n).goOn segments = .undefined := by
  obtain ⟨segment, rest, rfl⟩ := List.exists_cons_of_ne_nil h
  rw [goOn, toJson?]
  cases n with
  | float x =>
      by_cases hfinite : x.isFinite = true
      · rw [Number.toJson, dif_pos hfinite]
        rfl
      · rw [Number.toJson, dif_neg hfinite]
        rfl
  | signed _ | unsigned _ => rfl

end FieldValue

namespace FieldPath

open FieldValue (goOn)

/-- A count that is asked for before the last segment is nothing, and below a count that is asked
for by the last one there is nothing. -/
theorem resolveLength_append (count : Nat) (segment : String) (rest : List String)
    {later : List String} (h : later ≠ []) :
    resolveLength count segment (rest ++ later)
      = (resolveLength count segment rest).goOn later := by
  have hmore : ¬ (segment = "length" ∧ rest ++ later = []) := by
    rintro ⟨-, hnil⟩
    exact h (List.append_eq_nil_iff.mp hnil).2
  rw [resolveLength, if_neg hmore, resolveLength]
  split
  · exact (FieldValue.goOn_number _ h).symm
  · rfl

theorem resolveSegments_append {later : List String} (h : later ≠ []) :
    ∀ (place : Place) (json : Json) (segments : List String),
      resolveSegments place json (segments ++ later)
        = (resolveSegments place json segments).goOn later
  | place, json, [] => (FieldValue.goOn_ofJson place json h).symm
  | place, .object members, segment :: rest => by
      rw [List.cons_append, resolveSegments, resolveSegments]
      cases Members.get? segment members with
      | none => rfl
      | some value => exact resolveSegments_append h (place.member segment) value rest
  | place, .array items, segment :: rest => by
      rw [List.cons_append, resolveSegments, resolveSegments]
      cases readIndex? segment with
      | none => exact resolveLength_append items.length segment rest h
      | some index =>
          dsimp only
          cases items[index]? with
          | none => rfl
          | some item => exact resolveSegments_append h (place.element index) item rest
  | _, .string s, segment :: rest => resolveLength_append (Text.unitCount s) segment rest h
  | _, .null, _ :: _ | _, .bool _, _ :: _ | _, .number _, _ :: _ => rfl

/-- Apart from the places of containers it does not matter where a document stands. -/
theorem unplaced_resolveSegments :
    ∀ (place other : Place) (json : Json) (segments : List String),
      (resolveSegments place json segments).unplaced
        = (resolveSegments other json segments).unplaced
  | _, _, json, [] => by cases json <;> rfl
  | place, other, .object members, segment :: rest => by
      rw [resolveSegments, resolveSegments]
      cases Members.get? segment members with
      | none => rfl
      | some value =>
          exact unplaced_resolveSegments (place.member segment) (other.member segment) value rest
  | place, other, .array items, segment :: rest => by
      rw [resolveSegments, resolveSegments]
      cases readIndex? segment with
      | none => rfl
      | some index =>
          dsimp only
          cases items[index]? with
          | none => rfl
          | some item =>
              exact unplaced_resolveSegments (place.element index) (other.element index) item rest
  | _, _, .string _, _ :: _ | _, _, .null, _ :: _ | _, _, .bool _, _ :: _
  | _, _, .number _, _ :: _ => rfl

theorem resolve_join_eq_goOn (path rest : FieldPath) (record : Json) :
    (path.join rest).resolve record = (path.resolve record).goOn rest.segments := by
  rw [resolve, resolveAt, segments_join]
  exact resolveSegments_append rest.segments_ne_nil (.root 0) record path.segments

/-- **Resolution composes.** Where the first part of a path leads to nothing, the path does too.
Otherwise it leads to what the second part leads to from the document that the first part leads
to: to the very same, containers and their places included, if that document is taken where it
stands, and to the same but for the places if it is taken as a record of its own. In particular
it leads to nothing if the first part leads to a number, as it does if it asks for a count. -/
theorem resolve_join (path rest : FieldPath) (record : Json) :
    (path.resolve record = .undefined → (path.join rest).resolve record = .undefined)
    ∧ (∀ json : Json, (path.resolve record).toJson? = some json →
      (path.join rest).resolve record = rest.resolveAt (path.resolve record).place json
        ∧ ((path.join rest).resolve record).unplaced = (rest.resolve json).unplaced)
    ∧ ∀ n : Number, path.resolve record = .number n →
      (path.join rest).resolve record = .undefined := by
  rw [resolve_join_eq_goOn]
  refine ⟨fun hnothing => ?_, fun json hjson => ?_, fun n hnumber => ?_⟩
  · rw [hnothing]
    rfl
  · have hplace : (path.resolve record).goOn rest.segments
        = rest.resolveAt (path.resolve record).place json := by
      rw [FieldValue.goOn, hjson]
      rfl
    refine ⟨hplace, ?_⟩
    rw [hplace]
    exact unplaced_resolveSegments _ _ json rest.segments
  · rw [hnumber]
    exact FieldValue.goOn_number n rest.segments_ne_nil

/-- The member `length` of an object comes before any count, an index may have a plus sign and
zeros before it, and an empty segment names a member. -/
theorem resolve_join_through_length :
    let inner : Json := .object [("", .string "😀")]
    let list : Json := .array [.null, inner]
    let record : Json := .object [("a", .array [.object [("length", list)]])]
    let path : FieldPath := ⟨"a.00.length"⟩
    let rest : FieldPath := ⟨"+1."⟩
    (path.resolve record).toJson? = some list
      ∧ (path.resolve record).place = ⟨0, [.member "length", .element 0, .member "a"]⟩
      ∧ (path.join rest).resolve record = rest.resolveAt (path.resolve record).place list
      ∧ ((path.join rest).resolve record).unplaced = (rest.resolve list).unplaced
      ∧ (path.join rest).resolve record = .string "😀"
      ∧ ((path.join rest).join ⟨"length"⟩).resolve record = .number (.unsigned 2)
      ∧ (((path.join rest).join ⟨"length"⟩).join ⟨"length"⟩).resolve record = .undefined
      ∧ (⟨"a.length"⟩ : FieldPath).resolve record = .number (.unsigned 1)
      ∧ ((⟨"a.length"⟩ : FieldPath).join rest).resolve record = .undefined
      ∧ (⟨"a.1"⟩ : FieldPath).resolve record = .undefined
      ∧ ((⟨"a.1"⟩ : FieldPath).join rest).resolve record = .undefined := by
  intro inner list record path rest
  have hlist : (path.resolve record).toJson? = some list := by decide
  have hunits : ((path.join rest).join ⟨"length"⟩).resolve record = .number (.unsigned 2) := by
    decide
  have hcount : (⟨"a.length"⟩ : FieldPath).resolve record = .number (.unsigned 1) := by decide
  have hnothing : (⟨"a.1"⟩ : FieldPath).resolve record = .undefined := by decide
  obtain ⟨hplace, hvalue⟩ := (resolve_join path rest record).2.1 list hlist
  exact ⟨hlist, by decide, hplace, hvalue, by decide, hunits,
    (resolve_join _ ⟨"length"⟩ record).2.2 _ hunits, hcount,
    (resolve_join _ rest record).2.2 _ hcount, hnothing,
    (resolve_join _ rest record).1 hnothing⟩

end FieldPath

end RecordQuery
