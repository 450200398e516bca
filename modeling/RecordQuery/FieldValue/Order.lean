import RecordQuery.Text.Units
import RecordQuery.FieldValue.Coercion

/-!
# Order of values

Two orders. The relational one, which the operators use, compares texts
as texts and anything else as numbers, and leaves what is no number
without a place. The one for sorting has a place for every value: values
of one kind in their natural order, and the kinds one after the other.
-/

namespace RecordQuery.FieldValue

/-- Relational order. There is none if either side counts as `nan`. -/
def compareRelational? (a b : FieldValue) : Option Ordering :=
  match a.toPrimitive, b.toPrimitive with
  | .string x, .string y => some (Text.compareUnits x y)
  | x, y => x.toNumber.compare? y.toNumber

def kindRank : FieldValue → Nat
  | bool _ => 0
  | number _ => 1
  | string _ => 2
  | array _ _ => 3
  | object _ _ => 4
  | null => 5
  | undefined => 6

/-- Numbers in numeric order, with `nan` after all others. -/
def compareNumbers (x y : Binary64) : Ordering :=
  match x.key?, y.key? with
  | some i, some j => compare i j
  | some _, none => .lt
  | none, some _ => .gt
  | none, none => .eq

def compareForSort : FieldValue → FieldValue → Ordering
  | bool a, bool b => compare a b
  | number a, number b => compareNumbers a.toBinary64 b.toBinary64
  | string a, string b => Text.compareUnits a b
  | a, b => compare a.kindRank b.kindRank

end RecordQuery.FieldValue
