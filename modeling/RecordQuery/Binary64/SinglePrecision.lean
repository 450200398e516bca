import RecordQuery.Binary64.Rounding

/-!
# Single precision

The binary64 numbers that have a 32-bit form: 24 significant bits, no
place below 2^-149 and nothing from 2^128 on but infinity.
-/

namespace RecordQuery.Binary64

/-- A number rounded to the nearest one with a 32-bit form. -/
def toSinglePrecision : Binary64 → Binary64
  | nan => nan
  | signed negative rank =>
    if rank.val = 0 then .signed negative rank
    else if infinityRank ≤ rank.val then infinity negative
    else
      let (num, den) := ratio rank.val
      let place := placeOf 24 (-149) num den
      let units := unitsOf place num den
      if 2 ^ 128 ≤ units * 2 ^ place.toNat then infinity negative
      else ofRatio negative (units * 2 ^ place.toNat) (2 ^ (-place).toNat)

end RecordQuery.Binary64
