import RecordQuery.Clause.Matching
import RecordQuery.Proofs.Text.LowercaseParts

/-!
# Searching without minding the case

A search that does not mind the case compares the needle and the text in
lower case, each made so by itself. What a search that minds the case finds
is found again if the capital sigmas of the needle keep their small form
where it stands (`matchesRecord_of_keepsSigmas`), and so in every record if
their form is settled within the needle, but in no other case
(`forall_matchesRecord_iff_settlesSigmas`).
-/

namespace RecordQuery

namespace FieldPath

/-- A document within objects of one member each. -/
def nest (segments : List String) (json : Json) : Json :=
  segments.foldr (fun segment inner => .object [(segment, inner)]) json

theorem resolveSegments_nest (s : String) (segments : List String) (place : Place) :
    resolveSegments place (nest segments (.string s)) segments = .string s := by
  induction segments generalizing place with
  | nil => rfl
  | cons segment rest ih =>
      have hmember : Members.get? segment [(segment, nest rest (.string s))]
          = some (nest rest (.string s)) := by simp [Members.get?]
      rw [nest, List.foldr_cons, resolveSegments]
      simp only [nest] at hmember
      rw [hmember]
      exact ih (place.member segment)

/-- Any text can stand at any path. -/
theorem exists_resolve_eq_string (field : FieldPath) (s : String) :
    ∃ record, field.resolve record = .string s :=
  ⟨nest field.segments (.string s), resolveSegments_nest s field.segments (.root 0)⟩

end FieldPath

namespace Clause

open Text (KeepsSigmas SettlesSigmas lowerFrom)

/-! ## What a search finds -/

theorem matchesRecord_contains_iff {field : FieldPath} {needle : String} {caseSensitive : Bool}
    {record : Json} : (contains field needle caseSensitive).matchesRecord record = true
      ↔ ∃ s, field.resolve record = .string s ∧ s ≠ ""
        ∧ needle.toList <:+: (if caseSensitive then s else Text.lowercase s).toList := by
  rw [matchesRecord, Clause.field, holdsOf, Bool.and_eq_true]
  cases hvalue : field.resolve record with
  | string s =>
      simp [FieldValue.isTruthy, valueContains, Text.contains, Text.occursIn_iff]
  | _ => simp [valueContains]

/-- A search that minds the case finds the needle itself. -/
theorem matchesRecord_minding_iff {field : FieldPath} {needle : String} {record : Json} :
    (ofNeedle field needle true).matchesRecord record = true
      ↔ ∃ s, field.resolve record = .string s ∧ s ≠ "" ∧ needle.toList <:+: s.toList :=
  matchesRecord_contains_iff

/-- A search that does not mind the case finds the lower case needle in the lower case text. -/
theorem matchesRecord_ignoring_iff {field : FieldPath} {needle : String} {record : Json} :
    (ofNeedle field needle false).matchesRecord record = true
      ↔ ∃ s, field.resolve record = .string s ∧ s ≠ ""
        ∧ lowerFrom [] needle.toList <:+: lowerFrom [] s.toList := by
  rw [ofNeedle, matchesRecord_contains_iff]
  simp [Text.lowercase]

/-! ## What is found again -/

/-- What stands in a field is found again where its sigmas keep their form. -/
theorem matchesRecord_of_keepsSigmas {field : FieldPath} {needle : String} {record : Json}
    {before after : List Char}
    (hvalue : field.resolve record = .string (String.ofList (before ++ (needle.toList ++ after))))
    (hkeeps : KeepsSigmas before needle.toList after)
    (h : (ofNeedle field needle true).matchesRecord record = true) :
    (ofNeedle field needle false).matchesRecord record = true := by
  obtain ⟨s, hs, hne, -⟩ := matchesRecord_minding_iff.mp h
  obtain rfl := FieldValue.string.inj (hs.symm.trans hvalue)
  refine matchesRecord_ignoring_iff.mpr ⟨_, hvalue, hne, ?_⟩
  rw [String.toList_ofList, ← Text.lowerWithin_eq_lowerFrom_iff.mpr hkeeps]
  exact Text.lowerWithin_infix before needle.toList after

theorem matchesRecord_of_settlesSigmas {field : FieldPath} {needle : String} {record : Json}
    (hsettles : SettlesSigmas needle.toList)
    (h : (ofNeedle field needle true).matchesRecord record = true) :
    (ofNeedle field needle false).matchesRecord record = true := by
  obtain ⟨s, hs, -, before, after, htext⟩ := matchesRecord_minding_iff.mp h
  rw [List.append_assoc] at htext
  refine matchesRecord_of_keepsSigmas ?_ (hsettles.keepsSigmas before after) h
  rw [hs, htext, String.ofList_toList]

/-- Nothing is lost of a needle, whatever the records, exactly if its sigmas are settled: else it
stands next to a letter in some record where it is not found again. -/
theorem forall_matchesRecord_iff_settlesSigmas {field : FieldPath} {needle : String} :
    (∀ record, (ofNeedle field needle true).matchesRecord record = true →
        (ofNeedle field needle false).matchesRecord record = true)
      ↔ SettlesSigmas needle.toList := by
  refine ⟨fun hall => ?_, fun hsettles record h => matchesRecord_of_settlesSigmas hsettles h⟩
  by_contra hnot
  obtain ⟨before, after, hlost⟩ := Text.exists_not_infix_of_not_settlesSigmas hnot
  obtain ⟨record, hrecord⟩ := field.exists_resolve_eq_string
    (String.ofList (before ++ (needle.toList ++ after)))
  have hfound := hall record (matchesRecord_minding_iff.mpr ⟨_, hrecord, ?_, ?_⟩)
  · obtain ⟨s, hs, -, hinfix⟩ := matchesRecord_ignoring_iff.mp hfound
    obtain rfl := FieldValue.string.inj (hs.symm.trans hrecord)
    rw [String.toList_ofList] at hinfix
    exact hlost hinfix
  · intro hempty
    have hnil : before ++ (needle.toList ++ after) = [] := by
      rw [← String.toList_ofList (l := before ++ (needle.toList ++ after)), hempty]
      rfl
    rw [List.append_eq_nil_iff, List.append_eq_nil_iff] at hnil
    rw [hnil.2.1] at hlost
    exact hlost List.nil_infix
  · rw [String.toList_ofList]
    exact ⟨before, after, List.append_assoc _ _ _⟩

end Clause

end RecordQuery
