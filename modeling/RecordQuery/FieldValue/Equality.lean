import RecordQuery.FieldValue.Coercion

/-!
# Equality of values

Three equalities. Loose equality lets a text and a number be equal if the
text counts as that number; strict equality asks for the same kind and
the same value; and the equality of list membership is the strict one,
except that `nan` is found. Two containers are equal if they keep what
they hold in one storage, whatever that is. Every container has a storage
of its own, but for arrays without elements: they need none, and so all
of them are equal.
-/

namespace RecordQuery

namespace Primitive

/-- Loose equality: nothing is equal to nothing only, values of one kind are compared as they
are, and any other two by the numbers they count as. -/
def looseEq : Primitive → Primitive → Bool
  | undefined, undefined | undefined, null | null, undefined | null, null => true
  | undefined, _ | null, _ | _, undefined | _, null => false
  | bool a, bool b => a == b
  | string a, string b => a == b
  | a, b => a.toNumber.eq b.toNumber

end Primitive

namespace FieldValue

/-- Where a container keeps what it holds. -/
inductive Storage where
  | nowhere
  | elements (place : Place)
  | members (place : Place)
  deriving DecidableEq

def storage? : FieldValue → Option Storage
  | array _ [] => some .nowhere
  | array place (_ :: _) => some (.elements place)
  | object place _ => some (.members place)
  | _ => none

/-- Equality with coercion. -/
def looseEq (a b : FieldValue) : Bool :=
  match a.storage?, b.storage? with
  | some p, some q => p == q
  | _, _ => a.toPrimitive.looseEq b.toPrimitive

/-- Equality without coercion. -/
def strictEq : FieldValue → FieldValue → Bool
  | undefined, undefined => true
  | null, null => true
  | bool a, bool b => a == b
  | number a, number b => a.toBinary64.eq b.toBinary64
  | string a, string b => a == b
  | array p xs, array q ys => (array p xs).storage? == (array q ys).storage?
  | object p ms, object q ns => (object p ms).storage? == (object q ns).storage?
  | _, _ => false

/-- Strict equality in which `nan` is equal to itself. -/
def sameValueZero : FieldValue → FieldValue → Bool
  | number a, number b =>
    a.toBinary64.eq b.toBinary64 || (a.toBinary64.isNaN && b.toBinary64.isNaN)
  | a, b => a.strictEq b

end FieldValue

end RecordQuery
