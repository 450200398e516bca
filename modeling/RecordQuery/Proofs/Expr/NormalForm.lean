import RecordQuery.Expr.Normalization

/-!
# Normal forms

What `Expr.normalize` leaves of an expression, said without it: in an
`IsNormal` expression every group has two members or more, and none of
them is a group of the same connective. Normalization ends in such an
expression (`isNormal_normalize`) and changes none
(`reduce?_of_isNormal`), so it is idempotent.

The members of a group are reduced one by one, and each gives a list to
the group (`remains`). All facts on groups go through that list: the
reduced members are the `flatMap` of it (`reduceMembers_eq_flatMap`),
and `ofMembers?` only looks at its length.
-/

namespace RecordQuery.Expr

/-! ## What remains of a member -/

/-- The connective of a group. -/
def connective? : Expr → Option Connective
  | group k _ => some k
  | _ => none

/-- What remains of one member of a group of the connective. -/
def remains (k : Connective) (e : Expr) : List Expr :=
  match e.reduce? with
  | none => []
  | some kept => membersFor k kept

theorem remains_of_none {k : Connective} {e : Expr} (h : e.reduce? = none) :
    remains k e = [] := by
  simp only [remains, h]

theorem remains_of_some {k : Connective} {e kept : Expr}
    (h : e.reduce? = some kept) : remains k e = membersFor k kept := by
  simp only [remains, h]

theorem reduceMembers_cons (k : Connective) (e : Expr) (rest : List Expr) :
    reduceMembers k (e :: rest) = remains k e ++ reduceMembers k rest := by
  rw [reduceMembers]
  rfl

theorem reduceMembers_eq_flatMap (k : Connective) (members : List Expr) :
    reduceMembers k members = members.flatMap (remains k) := by
  induction members with
  | nil => rfl
  | cons e rest ih => rw [reduceMembers_cons, ih, List.flatMap_cons]

theorem reduceMembers_append (k : Connective) (xs ys : List Expr) :
    reduceMembers k (xs ++ ys) = reduceMembers k xs ++ reduceMembers k ys := by
  simp only [reduceMembers_eq_flatMap, List.flatMap_append]

theorem membersFor_group_self (k : Connective) (members : List Expr) :
    membersFor k (group k members) = members := by
  simp [membersFor]

/-- All but a group of the connective itself is one member. -/
theorem membersFor_of_ne {k : Connective} {e : Expr}
    (h : e.connective? ≠ some k) : membersFor k e = [e] := by
  cases e with
  | group l members =>
      have hl : l ≠ k := fun heq => h (congrArg some heq)
      rw [membersFor, if_neg hl]
  | literal _ | clause _ | not _ => rfl

/-- An expression is either a group of the connective, which gives its own
members, or one member. -/
theorem membersFor_cases (k : Connective) (e : Expr) :
    (∃ members, e = group k members ∧ membersFor k e = members)
      ∨ (e.connective? ≠ some k ∧ membersFor k e = [e]) := by
  by_cases he : e.connective? = some k
  · cases e with
    | group l members =>
        obtain rfl : l = k := Option.some.inj he
        exact Or.inl ⟨members, rfl, membersFor_group_self l members⟩
    | literal _ | clause _ | not _ => cases he
  · exact Or.inr ⟨he, membersFor_of_ne he⟩

theorem ofMembers?_of_two_le {k : Connective} {members : List Expr}
    (h : 2 ≤ members.length) : ofMembers? k members = some (group k members) := by
  match members, h with
  | _ :: _ :: _, _ => rfl

/-! ## Normal expressions -/

mutual

/-- Every group has two members or more, none of them a group of the same connective. -/
def IsNormal : Expr → Prop
  | literal _ | clause _ => True
  | not operand => operand.IsNormal
  | group k members => 2 ≤ members.length ∧ AllNormalIn k members

/-- All of the expressions are normal and may be members of a normal group. -/
def AllNormalIn (k : Connective) : List Expr → Prop
  | [] => True
  | e :: rest => (e.IsNormal ∧ e.connective? ≠ some k) ∧ AllNormalIn k rest

end

theorem allNormalIn_iff {k : Connective} {members : List Expr} :
    AllNormalIn k members ↔ ∀ e ∈ members, e.IsNormal ∧ e.connective? ≠ some k := by
  induction members with
  | nil => simp [AllNormalIn]
  | cons e rest ih => simp only [AllNormalIn, ih, List.forall_mem_cons]

theorem AllNormalIn.append {k : Connective} {xs ys : List Expr}
    (hxs : AllNormalIn k xs) (hys : AllNormalIn k ys) : AllNormalIn k (xs ++ ys) := by
  rw [allNormalIn_iff] at *
  intro e he
  rcases List.mem_append.mp he with h | h
  · exact hxs e h
  · exact hys e h

/-! ## Reduction ends in a normal expression -/

/-- A normal expression gives only normal members. -/
theorem IsNormal.allNormalIn_membersFor {k : Connective} {e : Expr}
    (h : e.IsNormal) : AllNormalIn k (membersFor k e) := by
  rcases membersFor_cases k e with ⟨members, rfl, hgives⟩ | ⟨he, hgives⟩
  · rw [hgives]
    exact h.2
  · rw [hgives]
    exact ⟨⟨h, he⟩, trivial⟩

theorem AllNormalIn.isNormal_ofMembers? {k : Connective} {members : List Expr}
    {e : Expr} (h : AllNormalIn k members) (he : ofMembers? k members = some e) :
    e.IsNormal := by
  match members with
  | [] => cases he
  | [x] =>
      obtain rfl : x = e := Option.some.inj he
      exact h.1.1
  | x :: y :: rest =>
      obtain rfl := Option.some.inj he
      exact ⟨by simp, h⟩

mutual

theorem isNormal_of_reduce? : ∀ {e kept : Expr}, e.reduce? = some kept → kept.IsNormal
  | literal _, _, h => by
      obtain rfl := Option.some.inj h
      trivial
  | clause _, _, h => by
      obtain rfl := Option.some.inj h
      trivial
  | not operand, _, h => by
      obtain ⟨kept, hkept, rfl⟩ := Option.map_eq_some_iff.mp h
      have hnormal : kept.IsNormal := isNormal_of_reduce? hkept
      exact hnormal
  | group k members, _, h =>
      (allNormalIn_reduceMembers k members).isNormal_ofMembers? h

theorem allNormalIn_reduceMembers (k : Connective) :
    ∀ members : List Expr, AllNormalIn k (reduceMembers k members)
  | [] => trivial
  | e :: rest => by
      rw [reduceMembers_cons]
      refine AllNormalIn.append ?_ (allNormalIn_reduceMembers k rest)
      cases he : e.reduce? with
      | none =>
          rw [remains_of_none he]
          trivial
      | some kept =>
          rw [remains_of_some he]
          exact (isNormal_of_reduce? he).allNormalIn_membersFor

end

/-- Normalization ends in a normal expression. -/
theorem isNormal_normalize (e : Expr) : e.normalize.IsNormal := by
  unfold normalize
  cases he : e.reduce? with
  | none => trivial
  | some kept => exact isNormal_of_reduce? he

/-! ## Normal expressions are fixed points -/

mutual

theorem reduce?_of_isNormal : ∀ {e : Expr}, e.IsNormal → e.reduce? = some e
  | literal _, _ | clause _, _ => rfl
  | not operand, h => by
      have hoperand : operand.IsNormal := h
      rw [reduce?, reduce?_of_isNormal hoperand, Option.map_some]
  | group k members, ⟨hlen, hmembers⟩ => by
      rw [reduce?, reduceMembers_of_allNormalIn hmembers, ofMembers?_of_two_le hlen]

theorem reduceMembers_of_allNormalIn {k : Connective} :
    ∀ {members : List Expr}, AllNormalIn k members → reduceMembers k members = members
  | [], _ => rfl
  | e :: rest, ⟨⟨he, hk⟩, hrest⟩ => by
      rw [reduceMembers_cons, remains_of_some (reduce?_of_isNormal he),
        membersFor_of_ne hk, reduceMembers_of_allNormalIn hrest, List.singleton_append]

end

theorem IsNormal.normalize_eq {e : Expr} (h : e.IsNormal) : e.normalize = e := by
  rw [normalize, reduce?_of_isNormal h, Option.getD_some]

/-- Normalization is idempotent. -/
theorem normalize_normalize (e : Expr) : e.normalize.normalize = e.normalize :=
  (isNormal_normalize e).normalize_eq

/-! ## A group and its members

Between normal expressions, making a group of members (`ofMembers?`) and
taking it apart for an outer group of the same connective (`membersFor`)
undo each other. -/

theorem IsNormal.ofMembers?_membersFor {k : Connective} {e : Expr} (h : e.IsNormal) :
    ofMembers? k (membersFor k e) = some e := by
  rcases membersFor_cases k e with ⟨members, rfl, hgives⟩ | ⟨-, hgives⟩
  · rw [hgives]
    exact ofMembers?_of_two_le h.1
  · rw [hgives, ofMembers?]

/-- A group within a group of its connective gives what remains of its members. -/
theorem remains_group_self (k : Connective) (members : List Expr) :
    remains k (group k members) = reduceMembers k members := by
  have hnormal := allNormalIn_reduceMembers k members
  rw [remains, reduce?]
  match hkept : reduceMembers k members with
  | [] => rfl
  | [e] =>
      rw [hkept] at hnormal
      exact membersFor_of_ne hnormal.1.2
  | e :: e' :: rest => exact membersFor_group_self k (e :: e' :: rest)

/-- Reduction takes a group of one for its only member, also when that
member is a group of the same connective. -/
theorem reduce?_group_singleton (k : Connective) (e : Expr) :
    (group k [e]).reduce? = e.reduce? := by
  rw [reduce?, reduceMembers_cons, reduceMembers, List.append_nil]
  cases he : e.reduce? with
  | none => rw [remains_of_none he, ofMembers?]
  | some kept =>
      rw [remains_of_some he]
      exact (isNormal_of_reduce? he).ofMembers?_membersFor

/-! ## Paths of members -/

theorem pathsOfAll_eq_flatMap : ∀ es : List Expr, pathsOfAll es = es.flatMap paths
  | [] => rfl
  | e :: rest => by
      rw [pathsOfAll, pathsOfAll_eq_flatMap rest, List.flatMap_cons]

theorem pathsOfAll_membersFor (k : Connective) (e : Expr) :
    pathsOfAll (membersFor k e) = e.paths := by
  rcases membersFor_cases k e with ⟨members, rfl, hgives⟩ | ⟨-, hgives⟩
  · rw [hgives, paths]
  · rw [hgives, pathsOfAll, pathsOfAll, List.append_nil]

end RecordQuery.Expr
