import RecordQuery.Decimal.Basic

/-!
# Layout of a decimal

How a positive decimal is written down: with its point among plain
digits, or as one digit, a fraction and a signed exponent. Zeros at the
end of the digits are never significant and are left out.
-/

namespace RecordQuery.Decimal

/-- Which decimals are written without an exponent: those whose point lies between the two. -/
structure Layout where
  firstPoint : Int
  lastPoint : Int

/-- The digits of a natural up to the last that is not zero. -/
def significant (n : Nat) : List Char :=
  ((digitsOf n).reverse.dropWhile (· == '0')).reverse

/-- Digits with the point behind the given number of them, filled up with zeros on either side. -/
def positional (digits : List Char) (point : Int) : List Char :=
  if point ≤ 0 then
    '0' :: '.' :: (List.replicate (-point).toNat '0' ++ digits)
  else if point.toNat < digits.length then
    digits.take point.toNat ++ '.' :: digits.drop point.toNat
  else
    digits ++ List.replicate (point.toNat - digits.length) '0'

/-- Digits with the point behind the first of them, if there are more, and the exponent of that
first digit with its sign. -/
def scientific (digits : List Char) (point : Int) : List Char :=
  let mantissa := match digits with
    | first :: second :: rest => first :: '.' :: second :: rest
    | short => short
  let exponent := point - 1
  mantissa ++ 'e' :: (if exponent < 0 then '-' else '+') :: digitsOf exponent.natAbs

/-- A positive decimal in a layout. -/
def write (layout : Layout) (d : Decimal) : List Char :=
  let digits := significant d.coefficient
  if layout.firstPoint ≤ d.point && d.point ≤ layout.lastPoint then positional digits d.point
  else scientific digits d.point

end RecordQuery.Decimal
