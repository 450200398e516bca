import RecordQuery.Text.Quoted
import RecordQuery.FieldValue.Coercion

/-!
# Operands

The literal that a clause compares a field with. It is never a container,
so no clause depends on where a container stands.
-/

namespace RecordQuery

/-- A literal. -/
inductive Operand where
  | null
  | bool (b : Bool)
  | number (n : Number)
  | string (s : String)
  deriving DecidableEq

namespace Operand

/-- The operand as the value of a field. -/
def toFieldValue : Operand → FieldValue
  | null => .null
  | bool b => .bool b
  | number n => .number n
  | string s => .string s

def text (v : Operand) : String :=
  v.toFieldValue.text

/-- The operand as it is written in an expression, where a text stands between quotes. -/
def render : Operand → String
  | string s => Text.quote s
  | v => v.text

/-- The same literal; `nan` is not the same as itself. -/
def same : Operand → Operand → Bool
  | null, null => true
  | bool a, bool b => a == b
  | number a, number b => a.same b
  | string a, string b => a == b
  | _, _ => false

/-! ## Stored form -/

def toJson : Operand → Json
  | null => .null
  | bool b => .bool b
  | number n => n.toJson
  | string s => .string s

/-- A container is no operand. -/
def ofJson? : Json → Option Operand
  | .null => some null
  | .bool b => some (bool b)
  | .number n => some (number (.ofJson n))
  | .string s => some (string s)
  | _ => none

end Operand

end RecordQuery
