import RecordQuery.Predicate
import RecordQuery.Proofs.Expr.NormalForm

/-!
# Regrouping

When two expressions differ only by grouping that says nothing.
`Regroups` is the least congruence that removes an empty group from a
group, takes a group of one for its member, and merges a group into an
outer one of the same connective; an empty group is the same under
either connective and under a negation.

`normalize` decides it. The forward half (`Regroups.reduce?_eq`) is one
case per rule, since a group only depends on what remains of each
member; the backward half (`regroups_reduce?`) derives the reduced
expression rule by rule. The one thing that `normalize` does not tell
apart is no condition and the literal that is always true, so the
equivalence carries that exception at the top (`SameCondition`).
-/

namespace RecordQuery.Expr

/-- The expressions differ only by grouping that says nothing. -/
inductive Regroups : Expr → Expr → Prop where
  | refl (e : Expr) : Regroups e e
  | symm {a b : Expr} : Regroups a b → Regroups b a
  | trans {a b c : Expr} : Regroups a b → Regroups b c → Regroups a c
  | not {a b : Expr} : Regroups a b → Regroups (.not a) (.not b)
  | member {a b : Expr} (k : Connective) (xs ys : List Expr) :
      Regroups a b → Regroups (group k (xs ++ a :: ys)) (group k (xs ++ b :: ys))
  | empty : Regroups (all []) (any [])
  | notEmpty : Regroups (.not (all [])) (all [])
  | dropEmpty (k l : Connective) (xs ys : List Expr) :
      Regroups (group k (xs ++ group l [] :: ys)) (group k (xs ++ ys))
  | single (k : Connective) (e : Expr) : Regroups (group k [e]) e
  | merge (k : Connective) (xs ys zs : List Expr) :
      Regroups (group k (xs ++ group k ys :: zs)) (group k (xs ++ ys ++ zs))

/-- The expressions differ only by idle grouping, or one of them is no
condition and the other is the literal that is always true. -/
def SameCondition (a b : Expr) : Prop :=
  Regroups a b
    ∨ (Regroups a (all []) ∧ Regroups b (literal true))
    ∨ (Regroups a (literal true) ∧ Regroups b (all []))

/-! ## Regrouping does not change what remains -/

theorem remains_congr {k : Connective} {a b : Expr} (h : a.reduce? = b.reduce?) :
    remains k a = remains k b := by
  rw [remains, remains, h]

theorem Regroups.reduce?_eq {a b : Expr} (h : Regroups a b) : a.reduce? = b.reduce? := by
  induction h with
  | refl e => rfl
  | symm _ ih => exact ih.symm
  | trans _ _ ih₁ ih₂ => exact ih₁.trans ih₂
  | not _ ih => rw [reduce?, reduce?, ih]
  | member k xs ys _ ih =>
      rw [reduce?, reduce?, reduceMembers_append, reduceMembers_append,
        reduceMembers_cons, reduceMembers_cons, remains_congr ih]
  | empty => rfl
  | notEmpty => rfl
  | dropEmpty k l xs ys =>
      have hempty : remains k (group l []) = [] := rfl
      rw [reduce?, reduce?, reduceMembers_append, reduceMembers_append,
        reduceMembers_cons, hempty, List.nil_append]
  | single k e => exact reduce?_group_singleton k e
  | merge k xs ys zs =>
      rw [reduce?, reduce?, reduceMembers_append, reduceMembers_append,
        reduceMembers_append, reduceMembers_cons, remains_group_self, List.append_assoc]

theorem Regroups.normalize_eq {a b : Expr} (h : Regroups a b) :
    a.normalize = b.normalize := by
  rw [normalize, normalize, h.reduce?_eq]

/-! ## What remains is a regrouping -/

theorem regroups_empty (k : Connective) : Regroups (group k []) (all []) := by
  cases k with
  | all => exact .refl (all [])
  | any => exact .symm .empty

theorem regroups_ofMembers? (k : Connective) (members : List Expr) :
    Regroups (group k members) ((ofMembers? k members).getD (all [])) := by
  match members with
  | [] => exact regroups_empty k
  | [e] => exact .single k e
  | e :: e' :: rest => exact .refl (group k (e :: e' :: rest))

/-- A member may be replaced by what it gives to its group. -/
theorem regroups_membersFor (k : Connective) (xs ys : List Expr) (e : Expr) :
    Regroups (group k (xs ++ e :: ys)) (group k (xs ++ membersFor k e ++ ys)) := by
  rcases membersFor_cases k e with ⟨members, rfl, hgives⟩ | ⟨-, hgives⟩
  · rw [hgives]
    exact .merge k xs members ys
  · rw [hgives, List.append_assoc, List.singleton_append]
    exact .refl (group k (xs ++ e :: ys))

mutual

/-- An expression regroups into its reduction, and into an empty group if
nothing remains. -/
theorem regroups_reduce? : ∀ e : Expr, Regroups e (e.reduce?.getD (all []))
  | literal b => .refl (literal b)
  | clause c => .refl (clause c)
  | not operand => by
      have hnot := Regroups.not (regroups_reduce? operand)
      rw [reduce?]
      cases hop : operand.reduce? with
      | none =>
          rw [hop] at hnot
          exact hnot.trans .notEmpty
      | some kept =>
          rw [hop] at hnot
          exact hnot
  | group k members => by
      have hmembers := regroups_reduceMembers k [] members
      rw [reduce?]
      exact hmembers.trans (regroups_ofMembers? k (reduceMembers k members))

/-- In a group whose first members are done already, the others may be
replaced by what remains of them. -/
theorem regroups_reduceMembers (k : Connective) (done : List Expr) :
    ∀ members : List Expr,
      Regroups (group k (done ++ members)) (group k (done ++ reduceMembers k members))
  | [] => .refl (group k (done ++ []))
  | e :: rest => by
      have hmember := Regroups.member k done rest (regroups_reduce? e)
      have hrest := regroups_reduceMembers k (done ++ remains k e) rest
      rw [reduceMembers_cons, ← List.append_assoc]
      refine hmember.trans (.trans ?_ hrest)
      cases he : e.reduce? with
      | none =>
          rw [remains_of_none he, List.append_nil]
          exact .dropEmpty k .all done rest
      | some kept =>
          rw [remains_of_some he]
          exact regroups_membersFor k done rest kept

end

/-! ## Normalization decides regrouping -/

/-- Where normal forms agree the reductions agree too, but that nothing and the
literal `true` have one normal form. -/
theorem reduce?_of_normalize_eq {a b : Expr} (h : a.normalize = b.normalize) :
    a.reduce? = b.reduce?
      ∨ (a.reduce? = none ∧ b.reduce? = some (literal true))
      ∨ (a.reduce? = some (literal true) ∧ b.reduce? = none) := by
  rw [normalize, normalize] at h
  cases ha : a.reduce? with
  | none =>
      cases hb : b.reduce? with
      | none => exact Or.inl rfl
      | some y =>
          rw [ha, hb] at h
          obtain rfl : literal true = y := h
          exact Or.inr (Or.inl ⟨rfl, rfl⟩)
  | some x =>
      cases hb : b.reduce? with
      | none =>
          rw [ha, hb] at h
          obtain rfl : x = literal true := h
          exact Or.inr (Or.inr ⟨rfl, rfl⟩)
      | some y =>
          rw [ha, hb] at h
          obtain rfl : x = y := h
          exact Or.inl rfl

theorem sameCondition_of_normalize_eq {a b : Expr} (h : a.normalize = b.normalize) :
    SameCondition a b := by
  have hra := regroups_reduce? a
  have hrb := regroups_reduce? b
  rcases reduce?_of_normalize_eq h with hab | ⟨ha, hb⟩ | ⟨ha, hb⟩
  · rw [hab] at hra
    exact Or.inl (hra.trans hrb.symm)
  · rw [ha] at hra
    rw [hb] at hrb
    exact Or.inr (Or.inl ⟨hra, hrb⟩)
  · rw [ha] at hra
    rw [hb] at hrb
    exact Or.inr (Or.inr ⟨hra, hrb⟩)

theorem SameCondition.normalize_eq {a b : Expr} (h : SameCondition a b) :
    a.normalize = b.normalize := by
  have htrivial : (all []).normalize = (literal true).normalize := rfl
  rcases h with h | ⟨ha, hb⟩ | ⟨ha, hb⟩
  · exact h.normalize_eq
  · rw [ha.normalize_eq, hb.normalize_eq, htrivial]
  · rw [ha.normalize_eq, hb.normalize_eq, htrivial]

/-- No condition is not the literal that is always true, though both have one
normal form: a group drops the one and keeps the other. -/
theorem not_regroups_empty_literal : ¬ Regroups (all []) (literal true) := by
  intro h
  have hreduce : (all []).reduce? = (literal true).reduce? := h.reduce?_eq
  cases hreduce

/-- **Normal forms are canonical.** Two expressions have one normal form exactly
when they differ by idle grouping alone, or one of them is no condition and
the other the literal `true`; and what differs by idle grouping alone makes
one predicate, or is refused, under all options alike. The exception is one:
these two do not differ by idle grouping alone. -/
theorem normalize_eq_iff_sameCondition :
    (∀ a b : Expr, a.normalize = b.normalize ↔ SameCondition a b)
    ∧ (∀ a b : Expr, Regroups a b → a.normalize = b.normalize
      ∧ ∀ options : Options, Predicate.ofExpr a options = Predicate.ofExpr b options)
    ∧ ¬ Regroups (all []) (literal true) := by
  refine ⟨fun a b => ⟨sameCondition_of_normalize_eq, SameCondition.normalize_eq⟩, ?_,
    not_regroups_empty_literal⟩
  intro a b h
  refine ⟨h.normalize_eq, fun options => ?_⟩
  rw [Predicate.ofExpr, Predicate.ofExpr, h.normalize_eq]

/-- A nested group of one and a negated empty group leave no trace beside a clause. -/
theorem normalize_eq_of_idle_members :
    let x : Expr := clause (.truthy ⟨"a"⟩)
    let y : Expr := clause (.truthy ⟨"b"⟩)
    let grouped : Expr := all [x, any [all [y, x]], .not (any [])]
    Regroups grouped (all [x, y, x]) ∧ grouped.normalize = (all [x, y, x]).normalize
      ∧ ∀ options : Options,
        Predicate.ofExpr grouped options = Predicate.ofExpr (all [x, y, x]) options := by
  intro x y grouped
  have hunwrap : Regroups grouped (all [x, all [y, x], .not (any [])]) :=
    .member .all [x] [.not (any [])] (.single .any (all [y, x]))
  have hmerge : Regroups (all [x, all [y, x], .not (any [])]) (all [x, y, x, .not (any [])]) :=
    .merge .all [x] [y, x] [.not (any [])]
  have hnegation : Regroups (.not (any [])) (all []) :=
    .trans (.not (.symm .empty)) .notEmpty
  have hdrop : Regroups (all [x, y, x, .not (any [])]) (all [x, y, x]) :=
    .trans (.member .all [x, y, x] [] hnegation) (.dropEmpty .all .all [x, y, x] [])
  have hgrouped : Regroups grouped (all [x, y, x]) := hunwrap.trans (hmerge.trans hdrop)
  exact ⟨hgrouped, normalize_eq_iff_sameCondition.2.1 grouped (all [x, y, x]) hgrouped⟩

end RecordQuery.Expr
