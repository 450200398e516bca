import RecordQuery.FieldValue.Basic

/-!
# Coercion of values

What a value counts as when a text or a number is wanted of it. A
container is first reduced to its text, so coercions work on the five
kinds of `Primitive`.
-/

namespace RecordQuery

/-! ## Text -/

mutual

/-- The text of a document. An array is its elements with commas between them, and an object
shows nothing of its members. -/
def Json.text : Json → String
  | .null => "null"
  | .bool true => "true"
  | .bool false => "false"
  | .number n => (Number.ofJson n).text
  | .string s => s
  | .array items => ",".intercalate (Json.itemTexts items)
  | .object _ => "[object Object]"

/-- The texts of the elements of an array, where `null` has none. -/
def Json.itemTexts : List Json → List String
  | [] => []
  | .null :: rest => "" :: Json.itemTexts rest
  | item :: rest => item.text :: Json.itemTexts rest

end

namespace FieldValue

def text : FieldValue → String
  | undefined => "undefined"
  | null => "null"
  | bool true => "true"
  | bool false => "false"
  | number n => n.text
  | string s => s
  | array _ items => (Json.array items).text
  | object _ members => (Json.object members).text

end FieldValue

/-! ## Primitive values -/

/-- A value that is no container. -/
inductive Primitive where
  | undefined
  | null
  | bool (b : Bool)
  | number (x : Binary64)
  | string (s : String)
  deriving DecidableEq

namespace Primitive

/-- The number that a primitive value counts as. -/
def toNumber : Primitive → Binary64
  | undefined => .nan
  | null => .zero
  | bool b => .ofInt (if b then 1 else 0)
  | number x => x
  | string s => .ofText s

end Primitive

namespace FieldValue

/-- The value with a container reduced to its text. -/
def toPrimitive : FieldValue → Primitive
  | undefined => .undefined
  | null => .null
  | bool b => .bool b
  | number n => .number n.toBinary64
  | string s => .string s
  | array place items => .string (array place items).text
  | object place members => .string (object place members).text

def toNumber (v : FieldValue) : Binary64 :=
  v.toPrimitive.toNumber

end FieldValue

end RecordQuery
