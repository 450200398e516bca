import RecordQuery.Json.Basic
import RecordQuery.Binary64.Text

/-!
# Numbers of fields and operands

A number as a field or an operand holds it. Integers keep all their
digits, which shows in their text, but every comparison takes the nearest
binary64 number instead.
-/

namespace RecordQuery

/-- A number: a 64-bit integer with or without a sign, or a binary64 number. -/
inductive Number where
  | signed (n : Int64)
  | unsigned (n : UInt64)
  | float (x : Binary64)
  deriving DecidableEq

namespace Number

/-- A number of a document. An integer is kept with a sign whenever it fits. -/
def ofJson : JsonNumber → Number
  | .integer value _ =>
    if value < 2 ^ 63 then .signed (Int64.ofInt value) else .unsigned (UInt64.ofNat value.toNat)
  | .float value _ => .float value

/-- The number that comparisons take. -/
def toBinary64 : Number → Binary64
  | signed n => Binary64.ofInt n.toInt
  | unsigned n => Binary64.ofInt n.toNat
  | float x => x

/-- The number as a document. There is no numeral for what is not finite, so it becomes `null`. -/
def toJson : Number → Json
  | signed n => Json.ofInt n.toInt ⟨n.le_toInt, Int.lt_trans n.toInt_lt (by decide)⟩
  | unsigned n => Json.ofWord n
  | float x => if h : x.isFinite = true then .number (.float x h) else .null

/-- The text of a number: an integer in full, a float as its shortest decimal. -/
def text : Number → String
  | signed n => Decimal.integerText n.toInt
  | unsigned n => Decimal.integerText n.toNat
  | float x => x.text

/-- Both are held in the same way and are numerically equal; `nan` is not even the same as
itself. -/
def same : Number → Number → Bool
  | signed m, signed n => m == n
  | unsigned m, unsigned n => m == n
  | float x, float y => x.eq y
  | _, _ => false

end Number

end RecordQuery
