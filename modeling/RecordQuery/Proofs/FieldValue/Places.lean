import RecordQuery.FieldPath.Resolution
import RecordQuery.Operand

/-!
# Where values stand

A container is a value together with the place it was found at, and
nothing in the type ties the two together. `FieldValue.FoundIn` does: what
the value holds is what stands at its place in a row of documents. Paths
only lead to such values (`FieldPath.foundIn_resolveAt`), and of two of
them at one place there is only one (`FieldValue.FoundIn.array_inj`).
-/

namespace RecordQuery

/-- What one step leads to. -/
def PlaceStep.follow? : PlaceStep → Json → Option Json
  | member name, .object members => Members.get? name members
  | element index, .array items => items[index]?
  | _, _ => none

/-- What stands at the end of some steps from the root, the last of which comes first. -/
def Json.at? (document : Json) : List PlaceStep → Option Json
  | [] => some document
  | step :: before => (document.at? before).bind step.follow?

namespace FieldValue

variable {documents : Nat → Json}

/-- A container of the value stands at its place in one of the documents. -/
def FoundIn (documents : Nat → Json) : FieldValue → Prop
  | array place items => (documents place.document).at? place.steps = some (.array items)
  | object place members => (documents place.document).at? place.steps = some (.object members)
  | _ => True

/-- Two arrays that stand at one place are the same. -/
theorem FoundIn.array_inj {place : Place} {xs ys : List Json}
    (hxs : (array place xs).FoundIn documents) (hys : (array place ys).FoundIn documents) :
    xs = ys := by
  have hsame : some (Json.array xs) = some (Json.array ys) := hxs.symm.trans hys
  exact Json.array.inj (Option.some.inj hsame)

theorem foundIn_ofJson {place : Place} {json : Json}
    (h : (documents place.document).at? place.steps = some json) :
    (ofJson place json).FoundIn documents := by
  cases json with
  | array items => exact h
  | object members => exact h
  | null | bool _ | number _ | string _ => trivial

theorem foundIn_toFieldValue (v : Operand) : v.toFieldValue.FoundIn documents := by
  cases v <;> trivial

end FieldValue

namespace FieldPath

variable {documents : Nat → Json}

theorem foundIn_resolveLength (count : Nat) (segment : String) (rest : List String) :
    (resolveLength count segment rest).FoundIn documents := by
  unfold resolveLength
  split <;> trivial

/-- Resolution keeps the place in step with the document. -/
theorem foundIn_resolveSegments :
    ∀ {place : Place} {json : Json} (segments : List String),
      (documents place.document).at? place.steps = some json →
      (resolveSegments place json segments).FoundIn documents
  | _, _, [], h => FieldValue.foundIn_ofJson h
  | place, .object members, segment :: rest, h => by
      rw [resolveSegments]
      cases hvalue : Members.get? segment members with
      | none => trivial
      | some value =>
          have hstep : (documents place.document).at? (place.member segment).steps
              = some value := by
            rw [Place.member, Json.at?, h]
            exact hvalue
          exact foundIn_resolveSegments rest hstep
  | place, .array items, segment :: rest, h => by
      rw [resolveSegments]
      cases readIndex? segment with
      | none => exact foundIn_resolveLength items.length segment rest
      | some index =>
          dsimp only
          cases hitem : items[index]? with
          | none => trivial
          | some item =>
              have hstep : (documents place.document).at? (place.element index).steps
                  = some item := by
                rw [Place.element, Json.at?, h]
                exact hitem
              exact foundIn_resolveSegments rest hstep
  | _, .string s, segment :: rest, _ => foundIn_resolveLength (Text.unitCount s) segment rest
  | _, .null, _ :: _, _ | _, .bool _, _ :: _, _ | _, .number _, _ :: _, _ => trivial

/-- A path leads from a place to what stands at some place. -/
theorem foundIn_resolveAt (path : FieldPath) {place : Place} {json : Json}
    (h : (documents place.document).at? place.steps = some json) :
    (path.resolveAt place json).FoundIn documents :=
  foundIn_resolveSegments path.segments h

end FieldPath

end RecordQuery
