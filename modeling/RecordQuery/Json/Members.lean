import RecordQuery.Json.Basic

/-!
# Members of an object

Looking up and putting a member. A new member takes its place in the
ascending order of names, and a member that is there already keeps its
place and has its value replaced, so each name occurs once.
-/

namespace RecordQuery

abbrev Members := List (String × Json)

namespace Members

def get? (name : String) : Members → Option Json
  | [] => none
  | (other, value) :: rest => if name = other then some value else get? name rest

/-- The members with a value put under a name. -/
def insert (name : String) (value : Json) : Members → Members
  | [] => [(name, value)]
  | (other, old) :: rest =>
    if name = other then (name, value) :: rest
    else if name < other then (name, value) :: (other, old) :: rest
    else (other, old) :: insert name value rest

/-- Members in ascending order, from any list; of two values of a name the later counts. -/
def ofList (entries : List (String × Json)) : Members :=
  entries.foldl (fun members (name, value) => insert name value members) []

theorem get?_insert (name other : String) (value : Json) (members : Members) :
    get? other (insert name value members)
      = if other = name then some value else get? other members := by
  induction members with
  | nil => simp [insert, get?]
  | cons entry rest ih =>
    obtain ⟨k, v⟩ := entry
    simp only [insert]
    split
    · rename_i hk
      subst hk
      by_cases h : other = name <;> simp [get?, h]
    · rename_i hk
      split
      · by_cases h : other = name <;> simp [get?, h]
      · simp only [get?, ih]
        by_cases h : other = k
        · subst h
          simp [Ne.symm hk]
        · simp [h]

end Members

end RecordQuery
