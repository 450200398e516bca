import RecordQuery.Binary64.Basic

/-!
# Rounding to binary64

The binary64 number nearest to a ratio of two naturals, with ties to the
even significand. A magnitude of `m` units of the last place `q` has the
rank `(q + 1074) * 2 ^ 52 + m`, also when rounding has carried `m` up to
the next power of two, so a carry needs no case of its own and neither
does the step from the subnormal magnitudes to the normal ones.
-/

namespace RecordQuery

/-- The natural nearest to a ratio; half-way between two it is the even one. -/
def roundHalfEven (num den : Nat) : Nat :=
  let whole := num / den
  let twice := 2 * (num % den)
  if twice < den then whole
  else if den < twice then whole + 1
  else if whole % 2 = 0 then whole else whole + 1

/-- The binary exponent of a positive ratio: the `e` with `2 ^ e ≤ num / den < 2 ^ (e + 1)`. The
lengths of the two numbers leave two candidates. -/
def binaryExponent (num den : Nat) : Int :=
  let upper : Int := (num.log2 : Int) - den.log2
  if den * 2 ^ upper.toNat ≤ num * 2 ^ (-upper).toNat then upper else upper - 1

/-- The exponent of the last place kept of a positive ratio, with a given number of significant
bits and a lowest exponent below which no place is kept. -/
def placeOf (precision : Nat) (lowest : Int) (num den : Nat) : Int :=
  max (binaryExponent num den - precision + 1) lowest

/-- A ratio in units of `2 ^ place`, rounded. -/
def unitsOf (place : Int) (num den : Nat) : Nat :=
  roundHalfEven (num * 2 ^ (-place).toNat) (den * 2 ^ place.toNat)

namespace Binary64

/-- The rank of the magnitude nearest to a ratio, as if there were no largest one. -/
def nearestRank (num den : Nat) : Nat :=
  if num = 0 then 0
  else
    let place := placeOf 53 (-1074) num den
    (place + 1074).toNat * 2 ^ 52 + unitsOf place num den

/-- The number nearest to a ratio. -/
def ofRatio (negative : Bool) (num den : Nat) : Binary64 :=
  ofRank negative (nearestRank num den)

def ofInt (n : Int) : Binary64 :=
  ofRatio (decide (n < 0)) n.natAbs 1

end Binary64

end RecordQuery
