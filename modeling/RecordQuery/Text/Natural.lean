/-!
# Naturals in text

The reading of a natural in some radix: an optional plus sign and a row
of one or more digits. Leading zeros are allowed. Where the number has to
fit 64 bits, one that does not is refused like any other text.
-/

namespace RecordQuery.Text

/-- The value of a character as a digit; letters of either case follow the nine. -/
def digitValue? (c : Char) : Option Nat :=
  if c.isDigit then some (c.toNat - '0'.toNat)
  else if 'a' ≤ c ∧ c ≤ 'z' then some (c.toNat - 'a'.toNat + 10)
  else if 'A' ≤ c ∧ c ≤ 'Z' then some (c.toNat - 'A'.toNat + 10)
  else none

/-- The natural that a row of digits denotes, given what the digits before it denote. -/
def readRow? (radix : Nat) (before : Nat) : List Char → Option Nat
  | [] => some before
  | c :: rest =>
    match digitValue? c with
    | none => none
    | some d => if d < radix then readRow? radix (radix * before + d) rest else none

/-- A row without the plus sign that may stand before it. -/
def dropPlus : List Char → List Char
  | '+' :: rest => rest
  | text => text

/-- The natural that a text denotes. -/
def readNatural? (radix : Nat) (text : List Char) : Option Nat :=
  let row := dropPlus text
  if row.isEmpty then none else readRow? radix 0 row

/-- The natural that a text denotes, if it fits 64 bits. -/
def readWord? (radix : Nat) (text : List Char) : Option Nat :=
  (readNatural? radix text).filter (· < 2 ^ 64)

end RecordQuery.Text
