import RecordQuery.Proofs.Query.AcceptedPaths
import RecordQuery.Proofs.Text.Delimited

/-!
# Characters of a strict path

A path that `FieldPath.parseStrict` accepts is written with the
characters of identifiers, the digits and the dot alone, so its text ends
where any other character stands (`unambiguous`).
-/

namespace RecordQuery.FieldPath

/-- A character of an identifier or of an index, or the dot between two of them. -/
def isPathChar (c : Char) : Bool :=
  startsIdentifier c || c.isDigit || c == '.'

theorem all_isPathChar_of_isIdentifierOrIndex {segment : List Char}
    (h : isIdentifierOrIndex segment = true) : segment.all isPathChar := by
  cases segment with
  | nil => rfl
  | cons first rest =>
      simp only [isIdentifierOrIndex, Bool.or_eq_true, Bool.and_eq_true, List.all_eq_true] at h
      simp only [List.all_eq_true, isPathChar, Bool.or_eq_true]
      intro c hc
      rcases h with ⟨hfirst, hrest⟩ | hdigits
      · rcases List.mem_cons.mp hc with rfl | hc
        · exact Or.inl (Or.inl hfirst)
        · exact Or.inl (hrest c hc)
      · exact Or.inl (Or.inr (hdigits c hc))

/-- The characters of a text are those of its parts, and dots. -/
theorem all_of_splitDots {kind : Char → Bool} (hdot : kind '.' = true) :
    ∀ {text : List Char}, (∀ part ∈ splitDots text, part.all kind) → text.all kind
  | [], _ => rfl
  | c :: rest, h => by
      rw [splitDots] at h
      split at h
      · rename_i hc
        rw [hc, List.all_cons, hdot, Bool.true_and]
        exact all_of_splitDots hdot (List.forall_mem_cons.mp h).2
      · cases hsplit : splitDots rest with
        | nil =>
            have hrest : rest.all kind := all_of_splitDots hdot (by simp [hsplit])
            simp_all
        | cons part parts =>
            rw [hsplit] at h
            obtain ⟨hfirst, hparts⟩ := List.forall_mem_cons.mp h
            rw [List.all_cons, Bool.and_eq_true] at hfirst
            have hrest : rest.all kind := by
              apply all_of_splitDots hdot
              rw [hsplit]
              exact List.forall_mem_cons.mpr ⟨hfirst.2, hparts⟩
            rw [List.all_cons, hfirst.1, hrest, Bool.true_and]

/-- A strict path has no characters but those of identifiers, indices and dots. -/
theorem all_isPathChar_of_parseStrict {text : String} {path : FieldPath}
    (h : parseStrict text = .ok path) : text.toList.all isPathChar := by
  obtain ⟨parsed, hparse, hchecked⟩ := exists_of_bind_eq_ok h
  obtain rfl := parse_eq_ok hparse
  split at hchecked
  · rename_i hsegments
    apply all_of_splitDots rfl
    intro part hpart
    apply all_isPathChar_of_isIdentifierOrIndex
    have hsegment := List.all_eq_true.mp hsegments (String.ofList part) (List.mem_map_of_mem hpart)
    rwa [String.toList_ofList] at hsegment
  · cases hchecked

/-- A strict path is told from what follows it, unless that goes on with a character of a path. -/
theorem unambiguous {p q : FieldPath} (hp : parseStrict p.text = .ok p)
    (hq : parseStrict q.text = .ok q) :
    Text.Unambiguous (fun p : FieldPath => p.text.toList) id (Text.Stops isPathChar) p q :=
  Text.unambiguous_of_stops (all_isPathChar_of_parseStrict hp) (all_isPathChar_of_parseStrict hq)
    fun h => congrArg FieldPath.mk (String.toList_injective h)

end RecordQuery.FieldPath
