import RecordQuery.Proofs.FieldValue.Consistency
import RecordQuery.Proofs.FieldValue.Documents
import RecordQuery.Proofs.Json.UnsignedZeros

/-!
# Values that come from equal documents

Equal documents may be found at two places, and a number may be held in two
ways, so the values of equal documents need not be the same: they are alike
(`FieldValue.Alike`). Whatever a value is asked for is the same of values
that are alike, as long as the other side of a comparison is no container:
only two containers are told apart by where they stand.
-/

namespace RecordQuery

/-! ## Numbers with one place in the order -/

namespace Binary64

variable {x y : Binary64}

theorem eq_congr (h : x.key? = y.key?) (z : Binary64) : x.eq z = y.eq z := by
  rw [eq, eq, h]

theorem compare?_congr (h : x.key? = y.key?) (z : Binary64) : x.compare? z = y.compare? z := by
  rw [compare?, compare?, h]

theorem isNaN_eq_isNone (x : Binary64) : x.isNaN = x.key?.isNone := by
  cases x <;> rfl

theorem isNaN_congr (h : x.key? = y.key?) : x.isNaN = y.isNaN := by
  rw [isNaN_eq_isNone, isNaN_eq_isNone, h]

end Binary64

namespace Primitive

variable {x y : Binary64}

theorem looseEq_number_congr (h : x.key? = y.key?) (p : Primitive) :
    (number x).looseEq p = (number y).looseEq p := by
  cases p with
  | undefined | null => rfl
  | _ => exact Binary64.eq_congr h _

theorem compare?_number_congr (h : x.key? = y.key?) (p : Primitive) :
    (number x).compare? p = (number y).compare? p := by
  cases p <;> exact Binary64.compare?_congr h _

end Primitive

/-! ## Values that are alike -/

namespace FieldValue

/-- The values are of one kind and hold the same: numbers have one place in the order and one
text, and containers are equal up to the sign of zero, wherever they stand. -/
inductive Alike : FieldValue → FieldValue → Prop where
  | undefined : Alike undefined undefined
  | null : Alike null null
  | bool (b : Bool) : Alike (bool b) (bool b)
  | number {m n : Number} (hkey : m.toBinary64.key? = n.toBinary64.key?)
    (htext : m.text = n.text) : Alike (number m) (number n)
  | string (s : String) : Alike (string s) (string s)
  | array {here there : Place} {xs ys : List Json}
    (hitems : (Json.array xs).unsignZeros = (Json.array ys).unsignZeros) :
    Alike (array here xs) (array there ys)
  | object {here there : Place} {ms ns : Members}
    (hmembers : (Json.object ms).unsignZeros = (Json.object ns).unsignZeros) :
    Alike (object here ms) (object there ns)

namespace Alike

variable {u v w : FieldValue}

theorem symm (h : v.Alike w) : w.Alike v := by
  cases h with
  | undefined => exact .undefined
  | null => exact .null
  | bool b => exact .bool b
  | number hkey htext => exact .number hkey.symm htext.symm
  | string s => exact .string s
  | array hitems => exact .array hitems.symm
  | object hmembers => exact .object hmembers.symm

theorem trans (huv : u.Alike v) (hvw : v.Alike w) : u.Alike w := by
  cases huv with
  | undefined | null | bool b | string s => exact hvw
  | number hkey htext =>
      cases hvw with
      | number hkey' htext' => exact .number (hkey.trans hkey') (htext.trans htext')
  | array hitems =>
      cases hvw with
      | array hitems' => exact .array (hitems.trans hitems')
  | object hmembers =>
      cases hvw with
      | object hmembers' => exact .object (hmembers.trans hmembers')

/-! ## What values that are alike share -/

theorem kind_eq (h : v.Alike w) : v.kind = w.kind := by
  cases h <;> rfl

theorem text_eq (h : v.Alike w) : v.text = w.text := by
  cases h with
  | number _ htext => exact htext
  | array hitems =>
      rename_i xs ys
      exact (Json.text_unsignZeros (.array xs)).symm.trans
        ((congrArg Json.text hitems).trans (Json.text_unsignZeros (.array ys)))
  | _ => rfl

theorem isTruthy_eq (h : v.Alike w) : v.isTruthy = w.isTruthy := by
  cases h with
  | number hkey _ =>
      rw [isTruthy, isTruthy, Binary64.isZero, Binary64.isZero, Binary64.eq_congr hkey,
        Binary64.isNaN_congr hkey]
  | _ => rfl

theorem isNaN_eq (h : v.Alike w) : v.isNaN = w.isNaN := by
  cases h with
  | number hkey _ => exact Binary64.isNaN_congr hkey
  | _ => rfl

/-- As primitive values they are the same, or numbers with one place in the order. -/
theorem toPrimitive_cases (h : v.Alike w) :
    v.toPrimitive = w.toPrimitive
      ∨ ∃ x y : Binary64, v.toPrimitive = .number x ∧ w.toPrimitive = .number y
        ∧ x.key? = y.key? := by
  cases h with
  | number hkey _ => exact Or.inr ⟨_, _, rfl, rfl, hkey⟩
  | array hitems => exact Or.inl (congrArg Primitive.string (Alike.array hitems).text_eq)
  | object hmembers => exact Or.inl (congrArg Primitive.string (Alike.object hmembers).text_eq)
  | _ => exact Or.inl rfl

variable {literal : FieldValue}

theorem looseEq_eq (h : v.Alike w) (hliteral : literal.kind ≠ .container) :
    v.looseEq literal = w.looseEq literal := by
  rw [looseEq_of_kind_right v hliteral, looseEq_of_kind_right w hliteral]
  rcases h.toPrimitive_cases with heq | ⟨x, y, hx, hy, hkey⟩
  · rw [heq]
  · rw [hx, hy, Primitive.looseEq_number_congr hkey]

theorem compareRelational?_eq (h : v.Alike w) (literal : FieldValue) :
    v.compareRelational? literal = w.compareRelational? literal := by
  rw [FieldValue.compareRelational?_eq, FieldValue.compareRelational?_eq]
  rcases h.toPrimitive_cases with heq | ⟨x, y, hx, hy, hkey⟩
  · rw [heq]
  · rw [hx, hy, Primitive.compare?_number_congr hkey]

theorem strictEq_eq (h : v.Alike w) (hliteral : literal.kind ≠ .container) :
    v.strictEq literal = w.strictEq literal := by
  rw [FieldValue.strictEq_eq, FieldValue.strictEq_eq, h.kind_eq, h.looseEq_eq hliteral]

theorem sameValueZero_eq (h : v.Alike w) (hliteral : literal.kind ≠ .container) :
    v.sameValueZero literal = w.sameValueZero literal := by
  rw [FieldValue.sameValueZero_eq, FieldValue.sameValueZero_eq, h.strictEq_eq hliteral, h.isNaN_eq]

theorem apply_eq (h : v.Alike w) (hliteral : literal.kind ≠ .container) (op : Operator) :
    op.apply v literal = op.apply w literal := by
  cases op with
  | eq | ne => simp only [Operator.apply, h.looseEq_eq hliteral]
  | strictEq | strictNe => simp only [Operator.apply, h.strictEq_eq hliteral]
  | gt | ge | lt | le => simp only [Operator.apply, h.compareRelational?_eq literal]

end Alike

/-! ## Equal documents -/

/-- The document of a value up to the sign of zero; `undefined` has none. -/
def document? (v : FieldValue) : Option Json :=
  v.toJson?.map Json.unsignZeros

theorem alike_ofJson {here there : Place} {a b : Json} (h : a.unsignZeros = b.unsignZeros) :
    (ofJson here a).Alike (ofJson there b) := by
  cases a with
  | null => cases b <;> first | exact .null | cases h
  | bool x => cases b <;> cases h; exact .bool x
  | number m =>
      cases b with
      | number n =>
          have hnumber : m.unsignZero = n.unsignZero := Json.number.inj h
          refine .number ?_ ?_
          · rw [← Number.key?_ofJson_unsignZero m, hnumber, Number.key?_ofJson_unsignZero]
          · rw [← Number.text_ofJson_unsignZero m, hnumber, Number.text_ofJson_unsignZero]
      | _ => cases h
  | string s => cases b <;> cases h; exact .string s
  | array xs =>
      cases b with
      | array ys => exact .array h
      | _ => cases h
  | object ms =>
      cases b with
      | object ns => exact .object h
      | _ => cases h

/-- A value is like the one that is read from its document. -/
theorem alike_of_toJson? {v : FieldValue} (hv : v.IsStorable) {json : Json}
    (h : v.toJson? = some json) (place : Place) : v.Alike (ofJson place json) := by
  cases v with
  | undefined => cases h
  | null =>
      cases h
      exact .null
  | bool b =>
      cases h
      exact .bool b
  | number n =>
      obtain ⟨numeral, hnumeral, hcanonical⟩ := Number.exists_toJson_of_isFinite hv
      obtain rfl : Json.number numeral = json := hnumeral.symm.trans (Option.some.inj h)
      refine .number ?_ ?_
      · rw [hcanonical, Number.toBinary64_canonical]
      · rw [hcanonical, Number.text_canonical]
  | string s =>
      cases h
      exact .string s
  | array _ items =>
      cases h
      exact .array rfl
  | object _ members =>
      cases h
      exact .object rfl

/-- Values with equal documents are alike. -/
theorem alike_of_document?_eq {v w : FieldValue} (hv : v.IsStorable) (hw : w.IsStorable)
    (h : v.document? = w.document?) : v.Alike w := by
  cases hjson : v.toJson? with
  | none =>
      have hnone : w.toJson? = none := by
        rw [document?, document?, hjson] at h
        exact Option.map_eq_none_iff.mp h.symm
      rw [toJson?_eq_none.mp hjson, toJson?_eq_none.mp hnone]
      exact .undefined
  | some a =>
      rw [document?, document?, hjson, Option.map_some] at h
      obtain ⟨b, hb, hsame⟩ := Option.map_eq_some_iff.mp h.symm
      exact (alike_of_toJson? hv hjson (.root 0)).trans
        ((alike_ofJson hsame.symm).trans (alike_of_toJson? hw hb (.root 0)).symm)

end FieldValue

/-! ## What a path finds in equal documents -/

namespace FieldPath

theorem document?_resolveAt (path : FieldPath) (place : Place) (json : Json) :
    (path.resolveAt place json).document?
      = json.unsignZeros.follow? path.segments := by
  rw [FieldValue.document?, resolveAt, toJson?_resolveSegments, Json.follow?_unsignZeros]

/-- A path finds values that are alike, wherever it starts, if it leads to equal documents. -/
theorem alike_resolveAt (path : FieldPath) {a b : Json} (here there : Place)
    (h : a.unsignZeros.follow? path.segments = b.unsignZeros.follow? path.segments) :
    (path.resolveAt here a).Alike (path.resolveAt there b) := by
  refine FieldValue.alike_of_document?_eq (isStorable_resolveSegments here a path.segments)
    (isStorable_resolveSegments there b path.segments) ?_
  rw [document?_resolveAt, document?_resolveAt, h]

end FieldPath

end RecordQuery
