import RecordQuery.Decimal.Basic

/-!
# The shortest decimal of a binary number

The decimal with the fewest digits among those that read back to a given
binary64 magnitude, and of those the one nearest to it; of two equally
near ones the larger. Seventeen digits are always enough. The two
neighbours of the exact value are tried with one digit, then with two,
and so on, all in exact arithmetic.
-/

namespace RecordQuery.Decimal

/-- Where the decimal point falls in a positive ratio: the `k` with
`10 ^ (k - 1) ≤ num / den < 10 ^ k`. No binary64 magnitude is below 10^-400. -/
def pointOf (num den : Nat) : Int :=
  (digitsOf (num * 10 ^ 400 / den)).length - 400

/-- The exact value of the magnitude of a rank. -/
def exact (rank : Nat) : Decimal :=
  let place := Binary64.lastPlace rank
  ⟨Binary64.significand rank * 2 ^ place.toNat * 5 ^ (-place).toNat, min place 0⟩

/-- The decimal reads back to the magnitude of the rank. -/
def readsBack (rank : Nat) (d : Decimal) : Bool :=
  d.toBinary64 false = Binary64.ofRank false rank

/-- The neighbours of a magnitude among the multiples of `10 ^ exponent`, the nearer one first. -/
def neighbours (rank : Nat) (exponent : Int) : List Decimal :=
  let (num, den) := Binary64.ratio rank
  let num := num * 10 ^ (-exponent).toNat
  let den := den * 10 ^ exponent.toNat
  let below : Decimal := ⟨num / den, exponent⟩
  let above : Decimal := ⟨num / den + 1, exponent⟩
  if 2 * (num % den) < den then [below, above] else [above, below]

/-- The decimal with the given number of digits that reads back, if there is one. -/
def withDigits? (rank count : Nat) : Option Decimal :=
  let (num, den) := Binary64.ratio rank
  (neighbours rank (pointOf num den - count)).find? (readsBack rank)

/-- The decimal of the fewest digits that reads back to a positive finite magnitude. The exact
value stands at the end, so that there is an answer without an argument that 17 digits do. -/
def shortest (rank : Nat) : Decimal :=
  ((List.range' 1 17).findSome? (withDigits? rank)).getD (exact rank)

end RecordQuery.Decimal
