import RecordQuery.Clause.Matching
import RecordQuery.Clause.Rendering
import RecordQuery.Clause.Stored
import RecordQuery.Proofs.Json.Fields
import RecordQuery.Proofs.Number.Canonical
import RecordQuery.Proofs.Text.Lowercase

/-!
# Clauses that come back from storage

What is read where an operand or a clause was stored (`restored`). Three
things change: an unsigned integer gets a sign if it fits, a number
without a numeral becomes `null`, and a needle is made lower case if case
does not matter. All else is as it was, and storing once more changes
nothing further.

A clause whose operand has a numeral and whose needle is in lower case
already (`IsSettled`) says and shows the same when it is back.
-/

namespace RecordQuery

/-! ## Paths and operators -/

@[simp] theorem FieldPath.ofJson?_toJson (path : FieldPath) : ofJson? path.toJson = some path :=
  rfl

@[simp] theorem Operator.ofJson?_toJson (op : Operator) : ofJson? op.toJson = some op :=
  ofToken?_token op

/-! ## Operands -/

namespace Operand

/-- The operand that is read where an operand was stored. -/
def restored : Operand → Operand
  | null => .null
  | bool b => .bool b
  | number n => if n.isFinite then .number n.canonical else .null
  | string s => .string s

@[simp] theorem ofJson?_toJson (v : Operand) : ofJson? v.toJson = some v.restored := by
  cases v with
  | number n =>
      rw [toJson, restored]
      split
      · rename_i hfinite
        obtain ⟨numeral, hnumeral, hcanonical⟩ := Number.exists_toJson_of_isFinite hfinite
        rw [hnumeral, ofJson?, hcanonical]
      · rename_i hfinite
        rw [Number.toJson_of_not_isFinite (Bool.eq_false_iff.mpr hfinite), ofJson?]
  | null | bool _ | string _ => rfl

theorem restored_restored (v : Operand) : v.restored.restored = v.restored := by
  cases v with
  | number n =>
      rw [restored]
      split
      · rename_i hfinite
        rw [restored, Number.isFinite_canonical, if_pos hfinite, Number.canonical_canonical]
      · rfl
  | null | bool _ | string _ => rfl

/-- The operand can be stored as it is. -/
def IsFinite : Operand → Prop
  | number n => n.isFinite = true
  | null | bool _ | string _ => True

/-- Only a number changes, and only in how it is held. -/
theorem IsFinite.restored_cases {v : Operand} (h : v.IsFinite) :
    v.restored = v ∨ ∃ n, v = .number n ∧ v.restored = .number n.canonical := by
  cases v with
  | number n => exact Or.inr ⟨n, rfl, if_pos h⟩
  | null | bool _ | string _ => exact Or.inl rfl

theorem IsFinite.text_restored {v : Operand} (h : v.IsFinite) : v.restored.text = v.text := by
  rcases h.restored_cases with heq | ⟨n, rfl, heq⟩
  · rw [heq]
  · rw [heq]
    exact n.text_canonical

theorem IsFinite.render_restored {v : Operand} (h : v.IsFinite) :
    v.restored.render = v.render := by
  rcases h.restored_cases with heq | ⟨n, rfl, heq⟩
  · rw [heq]
  · rw [heq]
    exact n.text_canonical

/-- Comparisons take an operand for the number that it counts as. -/
theorem IsFinite.strictEq_restored {v : Operand} (h : v.IsFinite) (a : FieldValue) :
    a.strictEq v.restored.toFieldValue = a.strictEq v.toFieldValue := by
  rcases h.restored_cases with heq | ⟨n, rfl, heq⟩
  · rw [heq]
  · rw [heq, toFieldValue, toFieldValue]
    cases a with
    | number m => rw [FieldValue.strictEq, FieldValue.strictEq, n.toBinary64_canonical]
    | _ => rfl

theorem IsFinite.sameValueZero_restored {v : Operand} (h : v.IsFinite) (a : FieldValue) :
    a.sameValueZero v.restored.toFieldValue = a.sameValueZero v.toFieldValue := by
  rcases h.restored_cases with heq | ⟨n, rfl, heq⟩
  · rw [heq]
  · rw [heq, toFieldValue, toFieldValue]
    cases a with
    | number m => rw [FieldValue.sameValueZero, FieldValue.sameValueZero, n.toBinary64_canonical]
    | _ => rfl

theorem IsFinite.apply_restored {v : Operand} (h : v.IsFinite) (op : Operator) (a : FieldValue) :
    op.apply a v.restored.toFieldValue = op.apply a v.toFieldValue := by
  have hstrict := h.strictEq_restored a
  rcases h.restored_cases with heq | ⟨n, rfl, heq⟩
  · rw [heq]
  · rw [heq, toFieldValue, toFieldValue] at hstrict ⊢
    have hprimitive : (FieldValue.number n.canonical).toPrimitive
        = (FieldValue.number n).toPrimitive := congrArg Primitive.number n.toBinary64_canonical
    have hloose : a.looseEq (.number n.canonical) = a.looseEq (.number n) := by
      simp only [FieldValue.looseEq, FieldValue.storage?, hprimitive]
    have hcompare : a.compareRelational? (.number n.canonical)
        = a.compareRelational? (.number n) := by
      rw [FieldValue.compareRelational?, FieldValue.compareRelational?, hprimitive]
    cases op <;> simp only [Operator.apply, hstrict, hloose, hcompare]

end Operand

/-! ## Clauses -/

namespace Clause

/-- The clause that is read where a clause was stored. -/
def restored : Clause → Clause
  | truthy field => .truthy field
  | compare field op value => .compare field op value.restored
  | oneOf field candidates => .oneOf field candidates
  | includes field value => .includes field value.restored
  | includesKey field key value => .includesKey field key value.restored
  | contains field needle caseSensitive => .ofNeedle field needle caseSensitive

theorem nodup_storedNames (c : Clause) :
    ((("kind", Json.string c.kind) :: c.storedFields).map Prod.fst).Nodup := by
  cases c <;> simp [storedFields]

theorem fields?_toJson (c : Clause) (names : List String) :
    c.toJson.fields? names
      = some (names.map fun name =>
          (("kind", Json.string c.kind) :: c.storedFields).lookup name) :=
  Json.fields?_ofList c.nodup_storedNames names

/-- A stored clause is read as one of its kind. -/
theorem ofJson?_eq_ofFields? (c : Clause) : ofJson? c.toJson = ofFields? c.kind c.toJson := by
  rw [toJson, ofJson?, Members.get?_ofList c.nodup_storedNames]
  rfl

theorem ofJson?_toJson (c : Clause) : ofJson? c.toJson = some c.restored := by
  rw [ofJson?_eq_ofFields?]
  cases c with
  | oneOf field candidates =>
      have hcandidates : Json.listOf? Json.string? (.array (candidates.map .string))
          = some candidates :=
        Json.listOf?_map (fun s => (rfl : Json.string? (.string s) = some s)) candidates
      simp [kind, ofFields?, fields?_toJson, storedFields, List.lookup_cons, Json.required,
        hcandidates, restored]
  | contains field needle caseSensitive =>
      simp [kind, ofFields?, fields?_toJson, storedFields, List.lookup_cons, Json.required,
        Json.string?, Json.optional, Json.bool?, restored]
  | truthy _ | compare _ _ _ | includes _ _ | includesKey _ _ _ =>
      simp [kind, ofFields?, fields?_toJson, storedFields, List.lookup_cons, Json.required, restored]

theorem restored_restored (c : Clause) : c.restored.restored = c.restored := by
  cases c with
  | truthy _ | oneOf _ _ => rfl
  | compare _ _ value | includes _ value | includesKey _ _ value =>
      simp only [restored, Operand.restored_restored]
  | contains field needle caseSensitive =>
      cases caseSensitive with
      | true => rfl
      | false => exact congrArg (contains field · false) (Text.lowercase_lowercase needle)

/-- The operand of the clause can be stored as it is, and its needle is in lower case if case
does not matter. -/
def IsSettled : Clause → Prop
  | truthy _ | oneOf _ _ | contains _ _ true => True
  | compare _ _ value | includes _ value | includesKey _ _ value => value.IsFinite
  | contains _ needle false => Text.lowercase needle = needle

theorem IsSettled.restored_contains {field : FieldPath} {needle : String} {caseSensitive : Bool}
    (h : (contains field needle caseSensitive).IsSettled) :
    (contains field needle caseSensitive).restored = .contains field needle caseSensitive := by
  cases caseSensitive with
  | true => rfl
  | false => exact congrArg (contains field · false) h

theorem IsSettled.matchesRecord_restored {c : Clause} (h : c.IsSettled) (record : Json) :
    c.restored.matchesRecord record = c.matchesRecord record := by
  cases c with
  | truthy _ | oneOf _ _ => rfl
  | contains field needle caseSensitive => rw [h.restored_contains]
  | compare field op value =>
      exact Operand.IsFinite.apply_restored h op (field.resolve record)
  | includes field value =>
      have hvalue : value.IsFinite := h
      have hincludes : ∀ v, valueIncludes v value.restored = valueIncludes v value := by
        intro v
        cases v <;> simp only [valueIncludes, hvalue.sameValueZero_restored, hvalue.text_restored]
      exact congrArg ((field.resolve record).isTruthy && ·) (hincludes (field.resolve record))
  | includesKey field key value =>
      have hvalue : value.IsFinite := h
      have hincludes : ∀ v, valueIncludesKey v key value.restored
          = valueIncludesKey v key value := by
        intro v
        cases v <;> simp only [valueIncludesKey, hvalue.strictEq_restored]
      exact congrArg ((field.resolve record).isTruthy && ·) (hincludes (field.resolve record))

theorem IsSettled.render_restored {c : Clause} (h : c.IsSettled) :
    c.restored.render = c.render := by
  cases c with
  | truthy _ | oneOf _ _ => rfl
  | contains field needle caseSensitive => rw [h.restored_contains]
  | compare _ _ _ | includes _ _ | includesKey _ _ _ =>
      simp only [restored, render, Operand.IsFinite.render_restored h]

end Clause

end RecordQuery
