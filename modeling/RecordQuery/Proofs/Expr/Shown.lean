import RecordQuery.Expr.Rendering
import RecordQuery.Proofs.Clause.Shown
import RecordQuery.Proofs.Expr.NormalForm

/-!
# What the text of an expression shows

The text of a normal expression with strict paths says which tree it is
(`shown_eq_of_render_eq`), up to what the text of a clause leaves open.

An expression is read as disjuncts, and each of them as conjuncts, which
are what it gives as members to a group of either connective
(`membersFor`). A conjunct is a literal, a clause or a negation, or it
is in parentheses; it is told from whatever follows it. A row of
conjuncts ends where no conjunction goes on, and a row of disjuncts
where neither does.
-/

namespace RecordQuery

/-- An expression as its text shows it. -/
inductive ShownExpr where
  | literal (value : Bool)
  | clause (clause : ShownClause)
  | not (operand : ShownExpr)
  | group (connective : Connective) (members : List ShownExpr)

namespace Expr

mutual

/-- An expression with each of its clauses shown. -/
def shown : Expr → ShownExpr
  | literal value => .literal value
  | clause c => .clause c.shown
  | not operand => .not operand.shown
  | group connective members => .group connective (shownAll members)

def shownAll : List Expr → List ShownExpr
  | [] => []
  | e :: rest => e.shown :: shownAll rest

end

theorem shownAll_eq_map (es : List Expr) : shownAll es = es.map shown := by
  induction es with
  | nil => rfl
  | cons e rest ih => rw [shownAll, ih, List.map_cons]

open Text (Unambiguous intercalate_append_inj)

/-! ## Members -/

/-- The text of a member of a group. -/
def renderMember (k : Connective) (e : Expr) : List Char :=
  (parenthesized (needsParens k e) e.render).toList

theorem renderMembers_eq_map (k : Connective) (es : List Expr) :
    (renderMembers k es).map String.toList = es.map (renderMember k) := by
  induction es with
  | nil => rfl
  | cons e rest ih => rw [renderMembers, List.map_cons, List.map_cons, ih, renderMember]

/-- Only a group has parentheses as a member. -/
theorem renderMember_of_needsParens_eq_false {k : Connective} {e : Expr}
    (h : needsParens k e = false) : renderMember k e = e.render.toList := by
  rw [renderMember, h, parenthesized, if_neg (by simp)]

/-- The expression is a group of the connective, or needs no parentheses in one. -/
def StandsBare (k : Connective) (e : Expr) : Prop :=
  e.connective? = some k ∨ needsParens k e = false

theorem standsBare_any (e : Expr) : StandsBare .any e := by
  cases e with
  | group k _ =>
      cases k with
      | all => exact Or.inr rfl
      | any => exact Or.inl rfl
  | literal _ | clause _ | not _ => exact Or.inr rfl

theorem standsBare_all {e : Expr} (h : e.connective? ≠ some .any) : StandsBare .all e := by
  cases e with
  | group k _ =>
      cases k with
      | all => exact Or.inl rfl
      | any => exact absurd rfl h
  | literal _ | clause _ | not _ => exact Or.inr rfl

/-- A normal expression that stands bare is shown as the row of its members. -/
theorem toList_render_eq_intercalate {k : Connective} {e : Expr} (he : e.IsNormal)
    (hk : StandsBare k e) :
    e.render.toList = (separator k).toList.intercalate ((membersFor k e).map (renderMember k)) := by
  rcases membersFor_cases k e with ⟨members, rfl, hgives⟩ | ⟨hne, hgives⟩
  · have hmembers : members.isEmpty = false := by
      cases members with
      | nil => exact absurd he.1 (by simp)
      | cons _ _ => rfl
    rw [hgives, render, if_neg (by simp [hmembers]), String.toList_intercalate,
      renderMembers_eq_map]
  · rw [hgives, List.map_cons, List.map_nil, List.intercalate_singleton,
      renderMember_of_needsParens_eq_false (hk.resolve_left hne)]

theorem membersFor_ne_nil {k : Connective} {e : Expr} (he : e.IsNormal) : membersFor k e ≠ [] := by
  rcases membersFor_cases k e with ⟨members, rfl, hgives⟩ | ⟨-, hgives⟩
  · rw [hgives]
    rintro rfl
    exact absurd he.1 (by simp)
  · simp [hgives]

/-- A normal expression is known from its members for a connective. -/
theorem shown_eq_of_membersFor {k : Connective} {e f : Expr} (he : e.IsNormal) (hf : f.IsNormal)
    (h : (membersFor k e).map shown = (membersFor k f).map shown) : e.shown = f.shown := by
  have hlength := congrArg List.length h
  rcases membersFor_cases k e with ⟨xs, rfl, hxs⟩ | ⟨-, hxs⟩ <;>
    rcases membersFor_cases k f with ⟨ys, rfl, hys⟩ | ⟨-, hys⟩ <;>
    rw [hxs, hys] at h
  · rw [shown, shown, shownAll_eq_map, shownAll_eq_map, h]
  · have hxs2 := he.1
    simp [hxs, hys] at hlength
    omega
  · have hys2 := hf.1
    simp [hxs, hys] at hlength
    omega
  · exact (List.cons.inj h).1

/-! ## Readable expressions -/

/-- The expression is normal and its paths are strict. -/
def IsReadable (e : Expr) : Prop :=
  e.IsNormal ∧ ∀ path ∈ e.paths, FieldPath.parseStrict path.text = .ok path

theorem IsReadable.of_mem_membersFor {k : Connective} {e u : Expr} (he : e.IsReadable)
    (hu : u ∈ membersFor k e) : u.IsReadable ∧ u.connective? ≠ some k := by
  obtain ⟨hnormal, hk⟩ := allNormalIn_iff.mp he.1.allNormalIn_membersFor u hu
  refine ⟨⟨hnormal, fun path hpath => he.2 path ?_⟩, hk⟩
  rw [← pathsOfAll_membersFor k e, pathsOfAll_eq_flatMap]
  exact List.mem_flatMap.mpr ⟨u, hu, hpath⟩

/-! ## Rows -/

/-- A row of members is told from what does not go on with another of them, if each member is
told from what may follow it. -/
theorem unambiguous_row {k : Connective} {endsMember endsRow : List Char → Prop} {e f : Expr}
    (he : e.IsNormal) (hf : f.IsNormal) (hek : StandsBare k e) (hfk : StandsBare k f)
    (hsep : ∀ rest, endsMember ((separator k).toList ++ rest))
    (hends : ∀ rest, endsRow rest → endsMember rest ∧ ¬ (separator k).toList <+: rest)
    (hmembers : ∀ u ∈ membersFor k e, ∀ v ∈ membersFor k f,
      Unambiguous (renderMember k) shown endsMember u v) :
    Unambiguous (fun e : Expr => e.render.toList) shown endsRow e f := by
  intro r s hr hs h
  simp only [toList_render_eq_intercalate he hek, toList_render_eq_intercalate hf hfk] at h
  obtain ⟨hshown, hrs⟩ := intercalate_append_inj hsep (hends r hr).1 (hends s hs).1
    (hends r hr).2 (hends s hs).2 hmembers (membersFor_ne_nil he) (membersFor_ne_nil hf) h
  exact ⟨shown_eq_of_membersFor he hf hshown, hrs⟩

/-- No conjunction goes on. -/
def EndsConjuncts (rest : List Char) : Prop :=
  ¬ (separator .all).toList <+: rest

/-- Neither a conjunction nor a disjunction goes on. -/
def EndsDisjuncts (rest : List Char) : Prop :=
  EndsConjuncts rest ∧ ¬ (separator .any).toList <+: rest

/-- An expression is told from what ends its disjuncts, if its conjuncts are told from all that
may follow them. -/
theorem unambiguous_render {e f : Expr} (he : e.IsReadable) (hf : f.IsReadable)
    (hmembers : ∀ d ∈ membersFor .any e, ∀ u ∈ membersFor .all d, ∀ v : Expr, v.IsReadable →
      Unambiguous (renderMember .all) shown (fun _ => True) u v) :
    Unambiguous (fun e : Expr => e.render.toList) shown EndsDisjuncts e f := by
  refine unambiguous_row he.1 hf.1 (standsBare_any e) (standsBare_any f) (fun rest => ?_)
    (fun _ => id) fun d hd d' hd' => ?_
  · simp [EndsConjuncts, separator]
  · obtain ⟨hread, hk⟩ := he.of_mem_membersFor hd
    obtain ⟨hread', hk'⟩ := hf.of_mem_membersFor hd'
    have hrow : Unambiguous (fun e : Expr => e.render.toList) shown EndsConjuncts d d' :=
      unambiguous_row hread.1 hread'.1 (standsBare_all hk) (standsBare_all hk')
        (fun _ => trivial) (fun _ hends => ⟨trivial, hends⟩)
        fun u hu v hv => hmembers d hd u hu v (hread'.of_mem_membersFor hv).1
    have hbare := (standsBare_any d).resolve_left hk
    have hbare' := (standsBare_any d').resolve_left hk'
    rwa [Unambiguous, renderMember_of_needsParens_eq_false hbare,
      renderMember_of_needsParens_eq_false hbare']

/-! ## Parentheses -/

/-- No expression begins with an `i`, as a clause does behind its bracket. -/
theorem render_append_ne : ∀ (e : Expr) {r s : List Char}, e.render.toList ++ r ≠ 'i' :: s
  | literal true, _, _ | literal false, _, _ => by simp [render]
  | clause c, _, _ => by simp [render, Clause.toList_render]
  | not _, _, _ => by simp [render]
  | group _ [], _, _ => by simp [render]
  | group k (e :: rest), r, s => by
      obtain ⟨tail, htail⟩ := Text.exists_intercalate_cons (separator k).toList
        (parenthesized (needsParens k e) e.render).toList ((renderMembers k rest).map String.toList)
      rw [render, if_neg (by simp), renderMembers, String.toList_intercalate, List.map_cons, htail,
        List.append_assoc, parenthesized]
      split
      · simp
      · exact render_append_ne e

/-- What stands bare is not mistaken for something in parentheses. -/
theorem bare_append_ne {e f : Expr} {r s : List Char} (he : e.connective? = none) :
    e.render.toList ++ r ≠ '(' :: (f.render.toList ++ s) := by
  cases e with
  | literal value => cases value <;> simp [render]
  | not _ => simp [render]
  | clause c =>
      intro h
      simp only [render, Clause.toList_render, String.reduceToList, List.cons_append,
        List.cons.injEq, true_and] at h
      exact absurd h.symm f.render_append_ne
  | group _ _ => cases he

/-- What may do without parentheses where a group needs them is no group. -/
theorem connective?_eq_none {needed : Expr → Bool} {e : Expr} (h : needed e = false)
    (hgroup : ∀ k members, needed (group k members) = true) : e.connective? = none := by
  cases e with
  | group k members =>
      rw [hgroup] at h
      cases h
  | literal _ | clause _ | not _ => rfl

/-- A text that is in parentheses where needed is told from all that may follow it, if a group
always needs them and what stands bare is told. -/
theorem unambiguous_parenthesized {needed : Expr → Bool} {e f : Expr}
    (hgroup : ∀ k members, needed (group k members) = true)
    (hinside : needed e = true →
      Unambiguous (fun e : Expr => e.render.toList) shown EndsDisjuncts e f)
    (hbare : needed e = false → e.connective? = none → f.connective? = none →
      Unambiguous (fun e : Expr => e.render.toList) shown (fun _ => True) e f) :
    Unambiguous (fun e => (parenthesized (needed e) e.render).toList) shown (fun _ => True)
      e f := by
  intro r s _ _ h
  cases hne : needed e <;> cases hnf : needed f <;>
    simp only [hne, hnf, parenthesized, if_true, Bool.false_eq_true, if_false, String.toList_append,
      List.append_assoc] at h
  · exact hbare hne (connective?_eq_none hne hgroup) (connective?_eq_none hnf hgroup) trivial
      trivial h
  · exact absurd h (bare_append_ne (connective?_eq_none hne hgroup))
  · exact absurd h.symm (bare_append_ne (connective?_eq_none hnf hgroup))
  · have hends : ∀ rest : List Char, EndsDisjuncts (")".toList ++ rest) := by
      intro rest
      simp [EndsDisjuncts, EndsConjuncts, separator]
    obtain ⟨hshown, hrs⟩ := hinside hne (hends r) (hends s) (List.append_cancel_left h)
    exact ⟨hshown, List.append_cancel_left hrs⟩

/-! ## What stands bare -/

/-- Literals, clauses and negations are told from all that may follow them, if what is negated
is. -/
theorem unambiguous_bare {e f : Expr} (he : e.IsReadable) (hf : f.IsReadable)
    (hek : e.connective? = none) (hfk : f.connective? = none)
    (hnot : ∀ x y : Expr, e = .not x → f = .not y →
      Unambiguous (fun x : Expr => (parenthesized (!x.isLeaf) x.render).toList) shown
        (fun _ => True) x y) :
    Unambiguous (fun e : Expr => e.render.toList) shown (fun _ => True) e f := by
  intro r s _ _ h
  cases e with
  | group _ _ => cases hek
  | literal value =>
      cases f with
      | group _ _ => cases hfk
      | literal value' => cases value <;> cases value' <;> simp_all [render]
      | clause _ => cases value <;> simp [render, Clause.toList_render] at h
      | not _ => cases value <;> simp [render] at h
  | clause c =>
      cases f with
      | group _ _ => cases hfk
      | literal value' => cases value' <;> simp [render, Clause.toList_render] at h
      | clause d =>
          obtain ⟨hshown, hrs⟩ := Clause.unambiguous he.2 hf.2 trivial trivial h
          exact ⟨congrArg ShownExpr.clause hshown, hrs⟩
      | not _ => simp [render, Clause.toList_render] at h
  | not x =>
      cases f with
      | group _ _ => cases hfk
      | literal value' => cases value' <;> simp [render] at h
      | clause d => simp [render, Clause.toList_render] at h
      | not y =>
          simp only [render, String.toList_append, List.append_assoc,
            List.append_cancel_left_eq] at h
          obtain ⟨hshown, hrs⟩ := hnot x y rfl rfl trivial trivial h
          exact ⟨congrArg ShownExpr.not hshown, hrs⟩

/-! ## Smaller expressions -/

theorem sizeOf_le_of_mem_membersFor {k : Connective} {e u : Expr} (hu : u ∈ membersFor k e) :
    sizeOf u ≤ sizeOf e := by
  rcases membersFor_cases k e with ⟨members, rfl, hgives⟩ | ⟨-, hgives⟩ <;> rw [hgives] at hu
  · have hlt := List.sizeOf_lt_of_mem hu
    simp only [group.sizeOf_spec]
    omega
  · exact Nat.le_of_eq (congrArg sizeOf (List.mem_singleton.mp hu))

/-- A conjunct in a disjunct of a group is smaller than the group. -/
theorem sizeOf_lt_of_mem_membersFor {k : Connective} {members : List Expr} {d u : Expr}
    (hd : d ∈ membersFor .any (group k members)) (hu : u ∈ membersFor .all d) :
    sizeOf u < sizeOf (group k members) := by
  cases k with
  | all =>
      obtain rfl : d = group .all members := by simpa [membersFor] using hd
      have hlt := List.sizeOf_lt_of_mem (membersFor_group_self .all members ▸ hu)
      simp only [group.sizeOf_spec]
      omega
  | any =>
      have hlt := List.sizeOf_lt_of_mem (membersFor_group_self .any members ▸ hd)
      have hle := sizeOf_le_of_mem_membersFor hu
      simp only [group.sizeOf_spec]
      omega

/-! ## Conjuncts -/

/-- A conjunct is told from all that may follow it, if all smaller ones are. -/
theorem unambiguous_renderMember_of_smaller {e f : Expr} (he : e.IsReadable) (hf : f.IsReadable)
    (hsmaller : ∀ u v : Expr, sizeOf u < sizeOf e → u.IsReadable → v.IsReadable →
      Unambiguous (renderMember .all) shown (fun _ => True) u v) :
    Unambiguous (renderMember .all) shown (fun _ => True) e f := by
  refine unambiguous_parenthesized (fun _ _ => rfl) (fun hneeded => ?_) fun _ hek hfk => ?_
  · cases e with
    | literal _ | clause _ | not _ => cases hneeded
    | group k members =>
        refine unambiguous_render he hf fun d hd u hu v hv => ?_
        exact hsmaller u v (sizeOf_lt_of_mem_membersFor hd hu)
          ((he.of_mem_membersFor hd).1.of_mem_membersFor hu).1 hv
  · refine unambiguous_bare he hf hek hfk ?_
    rintro x y rfl rfl
    have hx : x.IsReadable := he
    have hy : y.IsReadable := hf
    refine unambiguous_parenthesized (fun _ _ => rfl) (fun _ => ?_) fun hleaf hxk hyk => ?_
    · refine unambiguous_render hx hy fun d hd u hu v hv => ?_
      have hlt : sizeOf u < sizeOf (Expr.not x) := by
        have hux := sizeOf_le_of_mem_membersFor hu
        have hdx := sizeOf_le_of_mem_membersFor hd
        simp only [not.sizeOf_spec]
        omega
      exact hsmaller u v hlt ((hx.of_mem_membersFor hd).1.of_mem_membersFor hu).1 hv
    · refine unambiguous_bare hx hy hxk hyk ?_
      rintro z _ rfl _
      cases hleaf

/-- A conjunct of a readable expression is told from all that may follow it. -/
theorem unambiguous_renderMember {e f : Expr} (he : e.IsReadable) (hf : f.IsReadable) :
    Unambiguous (renderMember .all) shown (fun _ => True) e f :=
  unambiguous_renderMember_of_smaller he hf fun _ _ _ hu hv => unambiguous_renderMember hu hv
termination_by sizeOf e

/-! ## The whole text -/

/-- **The text of an expression says which it is.** Two expressions without idle grouping whose
paths are strict are the same tree if they have one text, once numbers are replaced by
their texts and searches in which case matters by those for an element. -/
theorem shown_eq_of_render_eq {e f : Expr} (he : e.normalize = e) (hf : f.normalize = f)
    (hepaths : ∀ path ∈ e.paths, FieldPath.parseStrict path.text = .ok path)
    (hfpaths : ∀ path ∈ f.paths, FieldPath.parseStrict path.text = .ok path)
    (h : e.render = f.render) : e.shown = f.shown := by
  have hread : e.IsReadable := ⟨he ▸ isNormal_normalize e, hepaths⟩
  have hread' : f.IsReadable := ⟨hf ▸ isNormal_normalize f, hfpaths⟩
  have hend : EndsDisjuncts [] := by simp [EndsDisjuncts, EndsConjuncts, separator]
  have hwhole : Unambiguous (fun e : Expr => e.render.toList) shown EndsDisjuncts e f :=
    unambiguous_render hread hread' fun d hd u hu v hv =>
      unambiguous_renderMember ((hread.of_mem_membersFor hd).1.of_mem_membersFor hu).1 hv
  exact (hwhole hend hend (by simp only [h])).1

/-- A needle that looks like the end of a clause, and a number held in two ways. -/
theorem shown_eq_of_render_eq_needle :
    let e : Expr := .not (.any [.clause (.contains ⟨"title"⟩ "') || (item.n" true),
      .clause (.compare ⟨"n"⟩ .eq (.number (.unsigned 1)))])
    let f : Expr := .not (.any [.clause (.includes ⟨"title"⟩ (.string "') || (item.n")),
      .clause (.compare ⟨"n"⟩ .eq (.number (.float (.ofInt 1))))])
    e.render = f.render ∧ e.shown = f.shown := by
  intro e f
  have hrender : e.render = f.render := by decide +kernel
  have hpaths : ∀ path ∈ [FieldPath.mk "title", FieldPath.mk "n"],
      FieldPath.parseStrict path.text = .ok path := by
    simp only [List.forall_mem_cons]
    exact ⟨rfl, rfl, by simp⟩
  exact ⟨hrender, shown_eq_of_render_eq rfl rfl hpaths hpaths hrender⟩

end Expr

end RecordQuery
