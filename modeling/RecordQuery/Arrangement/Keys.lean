import RecordQuery.FieldPath.Basic

/-!
# Keys

The fields that arrange the result of a query: those that records are
cut down to, those they are sorted by and those they are grouped by.
-/

namespace RecordQuery

/-- What a key is for. -/
inductive KeyRole where
  | select
  | sort
  | group
  deriving DecidableEq

/-- The keys of a query, in order of importance. -/
structure Keys where
  select : List FieldPath := []
  sort : List FieldPath := []
  group : List FieldPath := []
  deriving DecidableEq

namespace Keys

def get (keys : Keys) : KeyRole → List FieldPath
  | .select => keys.select
  | .sort => keys.sort
  | .group => keys.group

def set (keys : Keys) (role : KeyRole) (paths : List FieldPath) : Keys :=
  match role with
  | .select => { keys with select := paths }
  | .sort => { keys with sort := paths }
  | .group => { keys with group := paths }

/-- A path put at the end, unless it is there already. -/
def addUnique (paths : List FieldPath) (path : FieldPath) : List FieldPath :=
  if paths.contains path then paths else paths ++ [path]

/-- The keys with one more, unless it is there already. -/
def add (keys : Keys) (role : KeyRole) (path : FieldPath) : Keys :=
  keys.set role (addUnique (keys.get role) path)

/-- The keys with those of a part of the query added behind them. -/
def merge (keys part : Keys) : Keys where
  select := part.select.foldl addUnique keys.select
  sort := part.sort.foldl addUnique keys.sort
  group := part.group.foldl addUnique keys.group

def all (keys : Keys) : List FieldPath :=
  keys.select ++ keys.sort ++ keys.group

theorem get_set_self (keys : Keys) (role : KeyRole) (paths : List FieldPath) :
    (keys.set role paths).get role = paths := by
  cases role <;> rfl

theorem get_set_of_ne (keys : Keys) {role other : KeyRole} (h : other ≠ role)
    (paths : List FieldPath) : (keys.set role paths).get other = keys.get other := by
  cases role <;> cases other <;> first | rfl | exact absurd rfl h

theorem mem_addUnique {paths : List FieldPath} {path key : FieldPath} :
    path ∈ addUnique paths key ↔ path ∈ paths ∨ path = key := by
  unfold addUnique
  split
  · rename_i hkey
    constructor
    · exact Or.inl
    · rintro (h | rfl)
      · exact h
      · exact List.contains_iff_mem.mp hkey
  · rw [List.mem_append, List.mem_singleton]

theorem mem_foldl_addUnique {path : FieldPath} :
    ∀ {added paths : List FieldPath},
      path ∈ added.foldl addUnique paths ↔ path ∈ paths ∨ path ∈ added
  | [], _ => by simp
  | key :: rest, paths => by
      rw [List.foldl_cons, mem_foldl_addUnique, mem_addUnique, List.mem_cons, or_assoc]

theorem mem_all {keys : Keys} {path : FieldPath} :
    path ∈ keys.all ↔ ∃ role, path ∈ keys.get role := by
  constructor
  · intro h
    simp only [all, List.mem_append] at h
    rcases h with (h | h) | h
    · exact ⟨.select, h⟩
    · exact ⟨.sort, h⟩
    · exact ⟨.group, h⟩
  · rintro ⟨role, h⟩
    simp only [all, List.mem_append]
    cases role with
    | select => exact Or.inl (Or.inl h)
    | sort => exact Or.inl (Or.inr h)
    | group => exact Or.inr h

theorem mem_all_add {keys : Keys} {role : KeyRole} {key path : FieldPath}
    (h : path ∈ (keys.add role key).all) : path ∈ keys.all ∨ path = key := by
  obtain ⟨other, hother⟩ := mem_all.mp h
  by_cases hrole : other = role
  · subst hrole
    rw [add, get_set_self, mem_addUnique] at hother
    exact hother.imp_left fun hmem => mem_all.mpr ⟨other, hmem⟩
  · rw [add, get_set_of_ne keys hrole] at hother
    exact Or.inl (mem_all.mpr ⟨other, hother⟩)

theorem get_merge (keys part : Keys) (role : KeyRole) :
    (keys.merge part).get role = (part.get role).foldl addUnique (keys.get role) := by
  cases role <;> rfl

theorem mem_all_merge {keys part : Keys} {path : FieldPath}
    (h : path ∈ (keys.merge part).all) : path ∈ keys.all ∨ path ∈ part.all := by
  obtain ⟨role, hrole⟩ := mem_all.mp h
  rw [get_merge, mem_foldl_addUnique] at hrole
  exact hrole.imp (fun hmem => mem_all.mpr ⟨role, hmem⟩) fun hmem => mem_all.mpr ⟨role, hmem⟩

end Keys

end RecordQuery
