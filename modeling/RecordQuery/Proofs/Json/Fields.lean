import Mathlib.Data.List.Induction
import Mathlib.Data.List.Nodup
import RecordQuery.Json.Fields

/-!
# Reading what was written

The fields of a record that was stored as an object are those it was
stored with (`fields?_ofList`), in whatever order the object keeps its
members, and none of them is lost (`Members.perm_ofList`). A list is read
as it was written if each of its elements is (`listOf?_map`).
-/

namespace RecordQuery

theorem lookup_eq_none_of_not_mem {α β : Type} [BEq α] [LawfulBEq α] {a : α}
    {entries : List (α × β)} (h : a ∉ entries.map Prod.fst) : entries.lookup a = none := by
  refine List.lookup_eq_none_iff.mpr fun entry hentry => bne_iff_ne.mpr fun heq => ?_
  exact h (heq ▸ List.mem_map_of_mem hentry)

/-- Members put together from a list look up what the list has, if no name occurs twice in it. -/
theorem Members.get?_ofList {entries : List (String × Json)} (h : (entries.map Prod.fst).Nodup)
    (name : String) : get? name (ofList entries) = entries.lookup name := by
  have hfold : ∀ (entries : List (String × Json)) (members : Members),
      (entries.map Prod.fst).Nodup →
      get? name (entries.foldl (fun members entry => insert entry.1 entry.2 members) members)
        = (entries.lookup name).or (get? name members) := by
    intro entries
    induction entries with
    | nil => exact fun _ _ => rfl
    | cons entry rest ih =>
        intro members hnames
        obtain ⟨hfirst, hrest⟩ := List.nodup_cons.mp hnames
        rw [List.foldl_cons, ih _ hrest, get?_insert]
        by_cases hname : name = entry.1
        · subst hname
          rw [if_pos rfl, lookup_eq_none_of_not_mem hfirst, List.lookup_cons, beq_self_eq_true]
          rfl
        · rw [if_neg hname, List.lookup_cons, beq_eq_false_iff_ne.mpr hname]
  exact (hfold entries [] h).trans Option.or_none

theorem Members.perm_insert {name : String} (value : Json) :
    ∀ {members : Members}, get? name members = none →
      (insert name value members).Perm ((name, value) :: members)
  | [], _ => List.Perm.refl _
  | (other, old) :: rest, h => by
      rw [get?] at h
      split at h
      · cases h
      · rename_i hne
        rw [insert, if_neg hne]
        split
        · exact List.Perm.refl _
        · exact ((perm_insert value h).cons (other, old)).trans (List.Perm.swap _ _ rest)

/-- Members put together from a list are the entries of the list, if no name occurs twice in
it. -/
theorem Members.perm_ofList {entries : List (String × Json)} (h : (entries.map Prod.fst).Nodup) :
    (ofList entries).Perm entries := by
  induction entries using List.reverseRecOn with
  | nil => exact List.Perm.refl _
  | append_singleton entries entry ih =>
      rw [List.map_append, List.map_singleton, ← List.concat_eq_append,
        List.nodup_concat] at h
      have hnew : get? entry.1 (ofList entries) = none := by
        rw [get?_ofList h.2, lookup_eq_none_of_not_mem h.1]
      have hput : ofList (entries ++ [entry]) = insert entry.1 entry.2 (ofList entries) :=
        List.foldl_concat ..
      rw [hput]
      exact (perm_insert entry.2 hnew).trans (((ih h.2).cons entry).trans
        (List.perm_append_singleton entry entries).symm)

namespace Json

theorem fields?_ofList {entries : List (String × Json)} (h : (entries.map Prod.fst).Nodup)
    (names : List String) :
    (Json.object (Members.ofList entries)).fields? names
      = some (names.map fun name => entries.lookup name) := by
  simp only [fields?, Members.get?_ofList h]

theorem listOf?_map {α : Type} {read : Json → Option α} {write : α → Json}
    (h : ∀ a, read (write a) = some a) (as : List α) :
    listOf? read (.array (as.map write)) = some as := by
  rw [listOf?]
  induction as with
  | nil => rfl
  | cons a rest ih =>
      rw [List.map_cons, List.mapM_cons, h, ih]
      rfl

end Json

end RecordQuery
