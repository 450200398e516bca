import RecordQuery.Proofs.Expr.NormalForm

/-!
# The content of an expression

Apart from its grouping, an expression is a row of literals and clauses,
each below some number of negations (`Expr.leaves`). Normalization keeps
that row as it is, neither loses nor repeats nor moves anything in it, and
so keeps the paths; and it never makes an expression deeper. Only where
the row is empty does it put something in, the literal `true`.

As in the theory of normal forms a group is known by what remains of its
members, so for each of the two measures there is one lemma on what a
member gives to its group (`membersFor`), one on making the group
(`ofMembers?`), and then the two recursions of reduction.
-/

namespace RecordQuery.Expr

/-! ## Leaves -/

/-- A literal or a clause of an expression, with the number of negations above it. -/
inductive Leaf where
  | literal (negations : Nat) (value : Bool)
  | clause (negations : Nat) (clause : Clause)
  deriving DecidableEq

/-- The paths that a leaf reads. -/
def Leaf.paths : Leaf → List FieldPath
  | literal _ _ => []
  | clause _ c => c.paths

mutual

/-- The leaves of an expression that stands below some negations, from left to right. -/
def leavesBelow (negations : Nat) : Expr → List Leaf
  | literal value => [.literal negations value]
  | clause c => [.clause negations c]
  | not operand => operand.leavesBelow (negations + 1)
  | group _ members => leavesOfAll negations members

def leavesOfAll (negations : Nat) : List Expr → List Leaf
  | [] => []
  | e :: rest => e.leavesBelow negations ++ leavesOfAll negations rest

end

/-- The leaves of an expression. -/
def leaves (e : Expr) : List Leaf :=
  e.leavesBelow 0

theorem leavesOfAll_eq_flatMap (n : Nat) (es : List Expr) :
    leavesOfAll n es = es.flatMap (leavesBelow n) := by
  induction es with
  | nil => rfl
  | cons e rest ih => rw [leavesOfAll, ih, List.flatMap_cons]

theorem leavesOfAll_append (n : Nat) (xs ys : List Expr) :
    leavesOfAll n (xs ++ ys) = leavesOfAll n xs ++ leavesOfAll n ys := by
  simp only [leavesOfAll_eq_flatMap, List.flatMap_append]

theorem leavesOfAll_singleton (n : Nat) (e : Expr) : leavesOfAll n [e] = e.leavesBelow n :=
  List.append_nil _

theorem leavesOfAll_membersFor (n : Nat) (k : Connective) (e : Expr) :
    leavesOfAll n (membersFor k e) = e.leavesBelow n := by
  rcases membersFor_cases k e with ⟨members, rfl, hgives⟩ | ⟨-, hgives⟩
  · rw [hgives, leavesBelow]
  · rw [hgives, leavesOfAll_singleton]

theorem leavesOfAll_ofMembers? (n : Nat) (k : Connective) (members : List Expr) :
    leavesOfAll n (ofMembers? k members).toList = leavesOfAll n members := by
  match members with
  | [] | [_] => rfl
  | e :: e' :: rest => exact leavesOfAll_singleton n (group k (e :: e' :: rest))

mutual

/-- What reduction drops has no leaf, and what it keeps has them in order. -/
theorem leavesOfAll_reduce? (n : Nat) :
    ∀ e : Expr, leavesOfAll n e.reduce?.toList = e.leavesBelow n
  | literal _ | clause _ => rfl
  | not operand => by
      rw [reduce?, leavesBelow, ← leavesOfAll_reduce? (n + 1) operand]
      cases operand.reduce? <;> rfl
  | group k members => by
      rw [reduce?, leavesOfAll_ofMembers?, leavesOfAll_reduceMembers n k members, leavesBelow]

theorem leavesOfAll_reduceMembers (n : Nat) (k : Connective) :
    ∀ members : List Expr, leavesOfAll n (reduceMembers k members) = leavesOfAll n members
  | [] => rfl
  | e :: rest => by
      rw [reduceMembers_cons, leavesOfAll_append, leavesOfAll_reduceMembers n k rest,
        leavesOfAll, ← leavesOfAll_reduce? n e]
      cases he : e.reduce? with
      | none => rw [remains_of_none he, Option.toList_none]
      | some kept =>
          rw [remains_of_some he, leavesOfAll_membersFor, Option.toList_some,
            leavesOfAll_singleton]

end

theorem leaves_of_reduce?_eq_none {e : Expr} (h : e.reduce? = none) : e.leaves = [] := by
  rw [leaves, ← leavesOfAll_reduce? 0 e, h]
  rfl

theorem leaves_of_reduce?_eq_some {e kept : Expr} (h : e.reduce? = some kept) :
    kept.leaves = e.leaves := by
  rw [leaves, leaves, ← leavesOfAll_reduce? 0 e, h, Option.toList_some, leavesOfAll_singleton]

/-- A normal expression has a leaf, since its groups have members. -/
theorem IsNormal.leavesBelow_ne_nil (n : Nat) : ∀ {e : Expr}, e.IsNormal → e.leavesBelow n ≠ []
  | literal _, _ | clause _, _ => List.cons_ne_nil _ _
  | not operand, h => by
      have hoperand : operand.IsNormal := h
      exact hoperand.leavesBelow_ne_nil (n + 1)
  | group _ [], ⟨hlen, _⟩ => by cases hlen
  | group _ (_ :: _), ⟨_, ⟨he, _⟩, _⟩ => List.append_ne_nil_of_left_ne_nil (he.leavesBelow_ne_nil n) _

/-- Nothing remains of an expression exactly if it has no leaf. -/
theorem reduce?_eq_none_iff {e : Expr} : e.reduce? = none ↔ e.leaves = [] := by
  refine ⟨leaves_of_reduce?_eq_none, fun h => ?_⟩
  cases hkept : e.reduce? with
  | none => rfl
  | some kept =>
      have hleaves := leaves_of_reduce?_eq_some hkept
      rw [h] at hleaves
      exact absurd hleaves ((isNormal_of_reduce? hkept).leavesBelow_ne_nil 0)

/-! ## Paths -/

mutual

/-- The paths of an expression are those of its leaves. -/
theorem paths_eq_flatMap_leaves (n : Nat) :
    ∀ e : Expr, e.paths = (e.leavesBelow n).flatMap Leaf.paths
  | literal _ => rfl
  | clause _ => (List.append_nil _).symm
  | not operand => paths_eq_flatMap_leaves (n + 1) operand
  | group _ members => pathsOfAll_eq_flatMap_leaves n members

theorem pathsOfAll_eq_flatMap_leaves (n : Nat) :
    ∀ es : List Expr, pathsOfAll es = (leavesOfAll n es).flatMap Leaf.paths
  | [] => rfl
  | e :: rest => by
      rw [pathsOfAll, leavesOfAll, List.flatMap_append, paths_eq_flatMap_leaves n e,
        pathsOfAll_eq_flatMap_leaves n rest]

end

/-- Normalization keeps all paths, in their order. -/
theorem paths_normalize (e : Expr) : e.normalize.paths = e.paths := by
  rw [normalize, paths_eq_flatMap_leaves 0 e]
  cases hkept : e.reduce? with
  | none =>
      have hleaves : e.leavesBelow 0 = [] := leaves_of_reduce?_eq_none hkept
      rw [hleaves]
      rfl
  | some kept =>
      have hleaves : kept.leavesBelow 0 = e.leavesBelow 0 := leaves_of_reduce?_eq_some hkept
      rw [Option.getD_some, paths_eq_flatMap_leaves 0 kept, hleaves]

/-! ## Depth -/

theorem depth_pos : ∀ e : Expr, 1 ≤ e.depth
  | literal _ | clause _ => Nat.le_refl 1
  | not _ | group _ _ => Nat.le_add_right 1 _

theorem maxDepth_append (xs ys : List Expr) :
    maxDepth (xs ++ ys) = max (maxDepth xs) (maxDepth ys) := by
  induction xs with
  | nil => exact (Nat.zero_max _).symm
  | cons e rest ih => simp only [List.cons_append, maxDepth, ih, Nat.max_assoc]

theorem maxDepth_singleton (e : Expr) : maxDepth [e] = e.depth :=
  Nat.max_zero _

theorem maxDepth_membersFor_le (k : Connective) (e : Expr) :
    maxDepth (membersFor k e) ≤ e.depth := by
  rcases membersFor_cases k e with ⟨members, rfl, hgives⟩ | ⟨-, hgives⟩
  · rw [hgives]
    exact Nat.le_add_left _ 1
  · exact Nat.le_of_eq (hgives ▸ maxDepth_singleton e)

theorem depth_le_of_ofMembers? {k : Connective} {members : List Expr} {e : Expr}
    (h : ofMembers? k members = some e) : e.depth ≤ 1 + maxDepth members := by
  match members with
  | [] => cases h
  | [x] =>
      obtain rfl : x = e := Option.some.inj h
      rw [maxDepth_singleton]
      exact Nat.le_add_left _ 1
  | x :: y :: rest =>
      obtain rfl := Option.some.inj h
      exact Nat.le_refl _

mutual

theorem depth_le_of_reduce? : ∀ {e kept : Expr}, e.reduce? = some kept → kept.depth ≤ e.depth
  | literal _, _, h | clause _, _, h => by
      obtain rfl := Option.some.inj h
      exact Nat.le_refl _
  | not operand, _, h => by
      obtain ⟨kept, hkept, rfl⟩ := Option.map_eq_some_iff.mp h
      exact Nat.add_le_add_left (depth_le_of_reduce? hkept) 1
  | group k members, _, h =>
      Nat.le_trans (depth_le_of_ofMembers? h)
        (Nat.add_le_add_left (maxDepth_reduceMembers_le k members) 1)

theorem maxDepth_reduceMembers_le (k : Connective) :
    ∀ members : List Expr, maxDepth (reduceMembers k members) ≤ maxDepth members
  | [] => Nat.le_refl _
  | e :: rest => by
      have hrest := maxDepth_reduceMembers_le k rest
      have hmember : maxDepth (remains k e) ≤ e.depth := by
        cases he : e.reduce? with
        | none =>
            rw [remains_of_none he]
            exact Nat.zero_le _
        | some kept =>
            rw [remains_of_some he]
            exact Nat.le_trans (maxDepth_membersFor_le k kept) (depth_le_of_reduce? he)
      rw [reduceMembers_cons, maxDepth_append, maxDepth]
      omega

end

/-- A normal form is not deeper than the expression. -/
theorem depth_normalize_le (e : Expr) : e.normalize.depth ≤ e.depth := by
  rw [normalize]
  cases hkept : e.reduce? with
  | none => exact depth_pos e
  | some kept => exact depth_le_of_reduce? hkept

/-! ## What normalization keeps -/

/-- **Normalization keeps the content of an expression.** The result is normal and has the leaves
of the expression, each below as many negations as before and all in their order; if there are
none it is the literal `true`. So it reads the same paths. It is not deeper, and normalizing it
again changes nothing. -/
theorem normalize_keeps_content (e : Expr) :
    e.normalize.IsNormal
    ∧ (e.leaves ≠ [] → e.normalize.leaves = e.leaves)
    ∧ (e.leaves = [] → e.normalize = literal true)
    ∧ e.normalize.paths = e.paths
    ∧ e.normalize.depth ≤ e.depth
    ∧ e.normalize.normalize = e.normalize := by
  refine ⟨isNormal_normalize e, fun hleaves => ?_, fun hnone => ?_, paths_normalize e,
    depth_normalize_le e, normalize_normalize e⟩
  · obtain ⟨kept, hkept⟩ := Option.ne_none_iff_exists'.mp (mt reduce?_eq_none_iff.mp hleaves)
    rw [normalize, hkept]
    exact leaves_of_reduce?_eq_some hkept
  · rw [normalize, reduce?_eq_none_iff.mpr hnone]
    rfl

/-- Two collapses that bring a conjunction under a conjunction, with a negated literal between
its clauses and a group of nothing but empty groups behind them. -/
theorem normalize_keeps_content_of_collapses :
    let x : Expr := clause (.truthy ⟨"x"⟩)
    let y : Expr := clause (.truthy ⟨"y"⟩)
    let hollow : Expr := not (any [all [], not (any [])])
    let e : Expr := all [any [all [any [x], not (all [hollow, not (literal true)])]],
      not (not (any [y])), hollow, any [all [y]]]
    (hollow.leaves = [] ∧ hollow.normalize = literal true)
      ∧ e.leaves ≠ [] ∧ e.normalize.leaves = e.leaves
      ∧ e.leaves = [.clause 0 (.truthy ⟨"x"⟩), .literal 2 true, .clause 2 (.truthy ⟨"y"⟩),
        .clause 0 (.truthy ⟨"y"⟩)]
      ∧ e.normalize = all [x, not (not (literal true)), not (not y), y]
      ∧ e.normalize.depth ≤ e.depth := by
  intro x y hollow e
  have hhollow : hollow.leaves = [] := rfl
  have hleaves : e.leaves ≠ [] := List.cons_ne_nil _ _
  obtain ⟨-, -, htrivial, -⟩ := normalize_keeps_content hollow
  obtain ⟨-, hkeeps, -, -, hdepth, -⟩ := normalize_keeps_content e
  exact ⟨⟨hhollow, htrivial hhollow⟩, hleaves, hkeeps hleaves, rfl, rfl, hdepth⟩

end RecordQuery.Expr
