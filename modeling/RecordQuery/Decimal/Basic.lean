import RecordQuery.Binary64.Rounding

/-!
# Decimal numbers

An exact decimal number, as a numeral denotes it and as a binary number
is written, and the binary64 number nearest to it. The nearest number is
found without ever forming a power of ten that the result cannot depend
on: a decimal beyond every finite magnitude, or below half the smallest,
is recognised by the place of its first digit.
-/

namespace RecordQuery

/-- The number `coefficient * 10 ^ exponent`. -/
structure Decimal where
  coefficient : Nat
  exponent : Int
  deriving DecidableEq

namespace Decimal

/-- The decimal digits of a natural, without leading zeros. -/
def digitsOf (n : Nat) : List Char :=
  Nat.toDigits 10 n

/-- The natural that a row of decimal digits denotes. -/
def ofDigits (digits : List Char) : Nat :=
  Nat.ofDigitChars 10 digits 0

theorem ofDigits_digitsOf (n : Nat) : ofDigits (digitsOf n) = n :=
  Nat.ofDigitChars_toDigits (by decide) (by decide)

def integerText (n : Int) : String :=
  String.ofList (if n < 0 then '-' :: digitsOf n.natAbs else digitsOf n.natAbs)

/-- Where the decimal point of a positive number falls: just behind this many of its digits. -/
def point (d : Decimal) : Int :=
  (digitsOf d.coefficient).length + d.exponent

/-- The binary64 number nearest to a decimal, with a sign put before it. A decimal with more than
310 digits before its point is infinity, and one with more than 330 zeros behind it is zero. -/
def toBinary64 (negative : Bool) (d : Decimal) : Binary64 :=
  if d.coefficient = 0 then Binary64.ofRank negative 0
  else if 310 < d.point then Binary64.infinity negative
  else if d.point < -330 then Binary64.ofRank negative 0
  else Binary64.ofRatio negative (d.coefficient * 10 ^ d.exponent.toNat) (10 ^ (-d.exponent).toNat)

end Decimal

end RecordQuery
