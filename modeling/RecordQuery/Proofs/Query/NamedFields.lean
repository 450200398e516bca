import RecordQuery.Proofs.Expr.Clauses
import RecordQuery.Proofs.FieldValue.Alike
import RecordQuery.Proofs.FieldValue.EqualTexts
import RecordQuery.Proofs.Query.Reading
import RecordQuery.Proofs.Query.Runs

/-!
# A condition depends on the fields it names

Two records may differ in anything but the fields that a condition names:
it says the same of both (`filter_depends_on_named_fields`). The fields
need only have equal documents. The values that are tested stand at places
of their own, but a literal is no container, and so no clause can tell two
values apart that are alike (`Clause.holdsOf_congr`). Below a list each
element is tested where it stands, and there the same holds of what a key
leads to from it.
-/

namespace RecordQuery

/-- Lists that differ in nothing that the test looks at pass it alike. -/
theorem any_zipIdx_congr {α β : Type} {f : α → β} {p q : α × Nat → Bool}
    (hpq : ∀ x y index, f x = f y → p (x, index) = q (y, index)) :
    ∀ {xs ys : List α} (start : Nat), xs.map f = ys.map f →
      (xs.zipIdx start).any p = (ys.zipIdx start).any q
  | [], [], _, _ => rfl
  | x :: xs, y :: ys, start, h => by
      obtain ⟨hfirst, hrest⟩ := List.cons.inj h
      rw [List.zipIdx_cons, List.zipIdx_cons, List.any_cons, List.any_cons,
        hpq x y start hfirst, any_zipIdx_congr hpq (start + 1) hrest]

/-! ## Clauses -/

namespace Clause

variable {value other : FieldValue}

theorem valueIncludes_congr (h : value.Alike other) (v : Operand) :
    valueIncludes value v = valueIncludes other v := by
  cases h with
  | array hitems =>
      refine any_zipIdx_congr (fun x y index hxy => ?_) 0 (Json.map_unsignZeros_of_array hitems)
      exact (FieldValue.alike_ofJson hxy).sameValueZero_eq (FieldValue.kind_toFieldValue_ne v)
  | _ => rfl

theorem valueIncludesKey_congr (h : value.Alike other) (key : FieldPath) (v : Operand) :
    valueIncludesKey value key v = valueIncludesKey other key v := by
  cases h with
  | array hitems =>
      refine any_zipIdx_congr (fun x y index hxy => ?_) 0 (Json.map_unsignZeros_of_array hitems)
      exact (key.alike_resolveAt _ _ (congrArg (Json.follow? · key.segments) hxy)).strictEq_eq
        (FieldValue.kind_toFieldValue_ne v)
  | _ => rfl

theorem valueContains_congr (h : value.Alike other) (needle : String) (caseSensitive : Bool) :
    valueContains value needle caseSensitive = valueContains other needle caseSensitive := by
  cases h <;> rfl

/-- A clause says the same of values that are alike. -/
theorem holdsOf_congr (h : value.Alike other) (c : Clause) : c.holdsOf value = c.holdsOf other := by
  cases c with
  | truthy _ => exact h.isTruthy_eq
  | compare _ op v => exact h.apply_eq (FieldValue.kind_toFieldValue_ne v) op
  | oneOf _ candidates => rw [holdsOf, holdsOf, h.isTruthy_eq, h.text_eq]
  | includes _ v => rw [holdsOf, holdsOf, h.isTruthy_eq, valueIncludes_congr h]
  | includesKey _ key v => rw [holdsOf, holdsOf, h.isTruthy_eq, valueIncludesKey_congr h]
  | contains _ needle caseSensitive =>
      rw [holdsOf, holdsOf, h.isTruthy_eq, valueContains_congr h]

end Clause

/-! ## Records that agree on a field -/

/-- What the path leads to in both records is equal, or it leads to nothing in both. A number is
equal to the same number, and zero to the negative zero. -/
def FieldPath.AgreesIn (path : FieldPath) (r s : Json) : Prop :=
  (path.resolve r).document? = (path.resolve s).document?

instance (path : FieldPath) (r s : Json) : Decidable (path.AgreesIn r s) :=
  inferInstanceAs (Decidable ((path.resolve r).document? = (path.resolve s).document?))

/-- Where the records are kept makes no difference to what the path finds in them. -/
theorem FieldPath.AgreesIn.alike {path : FieldPath} {r s : Json} (h : path.AgreesIn r s)
    (here there : Place) : (path.resolveAt here r).Alike (path.resolveAt there s) := by
  refine path.alike_resolveAt here there ?_
  rw [← path.document?_resolveAt (.root 0) r, ← path.document?_resolveAt (.root 0) s]
  exact h

theorem Expr.eval_eq_of_agreesIn {e : Expr} {r s : Json}
    (h : ∀ c ∈ e.clauses, c.field.AgreesIn r s) : e.eval r = e.eval s :=
  Expr.eval_congr fun c hc => c.holdsOf_congr ((h c hc).alike (.root 0) (.root 0))

/-! ## Queries -/

namespace Query

/-- **A filter depends on the fields it names, and on nothing else.** If two records agree on
the field of each clause of a condition, the condition says the same of both, and each clause
does so wherever the two values stand. Records that are exchanged for others that agree with
them are kept or left out as those were: of all pairs, the same ones. -/
theorem filter_depends_on_named_fields :
    (∀ (e : Expr) (r s : Json), (∀ c ∈ e.clauses, c.field.AgreesIn r s) →
      e.eval r = e.eval s
      ∧ ∀ c ∈ e.clauses, ∀ here there : Place,
        c.holdsOf (c.field.resolveAt here r) = c.holdsOf (c.field.resolveAt there s))
    ∧ ∀ (q : Query) (pairs : List (Json × Json)),
      (∀ pair ∈ pairs, ∀ c ∈ q.expression.clauses, c.field.AgreesIn pair.1 pair.2) →
      q.filter (pairs.map Prod.fst)
          = q.predicate.map (fun p => (pairs.filter fun pair => p.test pair.1).map Prod.fst)
        ∧ q.filter (pairs.map Prod.snd)
          = q.predicate.map (fun p => (pairs.filter fun pair => p.test pair.1).map Prod.snd) := by
  refine ⟨fun e r s h => ⟨Expr.eval_eq_of_agreesIn h, fun c hc here there =>
    c.holdsOf_congr ((h c hc).alike here there)⟩, fun q pairs h => ?_⟩
  cases hpredicate : q.predicate with
  | error e =>
      have hfails := failsWith_of_predicate hpredicate
      exact ⟨hfails.filter _, hfails.filter _⟩
  | ok p =>
      have hkeeps := keepsBy_of_predicate hpredicate
      have hsame : pairs.filter (p.test ∘ Prod.snd) = pairs.filter (p.test ∘ Prod.fst) := by
        refine List.filter_congr fun pair hpair => ?_
        rw [Function.comp, Function.comp, Predicate.test, Predicate.test,
          expression_of_predicate hpredicate, Expr.eval_eq_of_agreesIn (h pair hpair)]
      rw [hkeeps.filter, hkeeps.filter, List.filter_map, List.filter_map, hsame]
      exact ⟨rfl, rfl⟩

/-- Below a list one record has the negative zero where the other has zero, and nothing lies below
`null` as nothing lies below a member that is missing. -/
theorem filter_depends_on_named_fields_of_zeros :
    let rows (n : Json) : Json := .array [.string "n", .object [("n", n)]]
    let zero : Json := .number (.float .zero (by decide))
    let negative : Json := .number (.float (.ofRank true 0) (by decide))
    let r : Json := .object [("id", .ofInt 7 (by decide)), ("rows", rows negative)]
    let s : Json := .object [("gone", .null), ("rows", rows zero)]
    let dropped : Json := .object [("gone", .object [("by", zero)]), ("rows", .string "n")]
    let found : Clause := .includesKey ⟨"rows"⟩ ⟨"n"⟩ (.number (.signed 0))
    let absent : Clause := .compare ⟨"gone.by"⟩ .eq .null
    let q : Query := { branches := [[.clause found, .clause absent]] }
    r ≠ s
      ∧ (∀ c ∈ q.expression.clauses, c.field.AgreesIn r s)
      ∧ q.expression.eval r = q.expression.eval s
      ∧ (∀ here there : Place, absent.holdsOf (absent.field.resolveAt here r)
        = absent.holdsOf (absent.field.resolveAt there s))
      ∧ q.filter [r, dropped] = .ok [r]
      ∧ q.filter [s, dropped] = .ok [s] := by
  intro rows zero negative r s dropped found absent q
  obtain ⟨heval, hfilter⟩ := filter_depends_on_named_fields
  have hclauses : q.expression.clauses = [found, absent] := by decide +kernel
  have hagree : ∀ c ∈ q.expression.clauses, c.field.AgreesIn r s := by
    rw [hclauses]
    decide +kernel
  obtain ⟨hsame, hplaces⟩ := heval q.expression r s hagree
  have hpairs : ∀ pair ∈ [(r, s), (dropped, dropped)], ∀ c ∈ q.expression.clauses,
      c.field.AgreesIn pair.1 pair.2 := by
    rw [hclauses]
    decide +kernel
  have hkept : ([(r, s), (dropped, dropped)].filter fun pair =>
      Predicate.test ⟨q.expression⟩ pair.1) = [(r, s)] := by decide +kernel
  have hpredicate : q.predicate = .ok ⟨q.expression⟩ := by
    rw [predicate, Predicate.ofExpr, if_neg (by decide +kernel), expression,
      Expr.normalize_normalize]
  obtain ⟨hfirst, hsecond⟩ := hfilter q [(r, s), (dropped, dropped)] hpairs
  rw [hpredicate, Except.map, hkept] at hfirst hsecond
  exact ⟨by decide +kernel, hagree, hsame, hplaces absent (by simp [hclauses]), hfirst, hsecond⟩

end Query

end RecordQuery
