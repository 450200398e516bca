/-!
# Binary64 numbers

Floating-point numbers of 64 bits. The magnitudes from zero to infinity
are numbered in ascending order, and a number is a sign and such a rank:
two numbers then compare as two integers, and the number that follows
another has the next rank. Everything that is not a number is one value,
`nan`, since nothing observes the payload of one.
-/

namespace RecordQuery

-- The powers of the core library, which evaluate, come before those of an algebra library.
attribute [scoped instance (high), default_instance (high + 1)] instPowNat

/-- The rank of infinity, which is the number of finite magnitudes: 2047 exponent fields of
2^52 fractions each. -/
def infinityRank : Nat := 0x7FF * 2 ^ 52

/-- A binary64 number: a sign and the rank of its magnitude, or no number at all. -/
inductive Binary64 where
  | nan
  | signed (negative : Bool) (rank : Fin (infinityRank + 1))
  deriving DecidableEq

namespace Binary64

/-- The number of a rank; what lies beyond infinity is infinity. -/
def ofRank (negative : Bool) (rank : Nat) : Binary64 :=
  .signed negative ⟨min rank infinityRank, by omega⟩

def zero : Binary64 := ofRank false 0

def infinity (negative : Bool) : Binary64 := ofRank negative infinityRank

def isNaN : Binary64 → Bool
  | nan => true
  | signed _ _ => false

def isFinite : Binary64 → Bool
  | nan => false
  | signed _ rank => decide (rank.val < infinityRank)

/-! ## Order and equality -/

/-- The place of a number in the order of all numbers, with both zeros at 0. -/
def key? : Binary64 → Option Int
  | nan => none
  | signed negative rank => some (if negative then -(rank.val : Int) else rank.val)

/-- Numeric order; `nan` has no place in it. -/
def compare? (a b : Binary64) : Option Ordering :=
  match a.key?, b.key? with
  | some x, some y => some (compare x y)
  | _, _ => none

/-- Numeric equality: the two zeros are equal, and `nan` is equal to nothing. -/
def eq (a b : Binary64) : Bool :=
  match a.key?, b.key? with
  | some x, some y => x == y
  | _, _ => false

def isZero (a : Binary64) : Bool :=
  a.eq zero

/-! ## Value and bits -/

/-- The significand of the finite magnitude of a rank, in units of its last place. -/
def significand (rank : Nat) : Nat :=
  if rank < 2 ^ 52 then rank else 2 ^ 52 + rank % 2 ^ 52

/-- The binary exponent of that last place, so that the magnitude is
`significand rank * 2 ^ lastPlace rank`. -/
def lastPlace (rank : Nat) : Int :=
  if rank < 2 ^ 52 then -1074 else (rank / 2 ^ 52 : Nat) - 1075

/-- A finite magnitude as a ratio of two naturals. -/
def ratio (rank : Nat) : Nat × Nat :=
  (significand rank * 2 ^ (lastPlace rank).toNat, 2 ^ (-lastPlace rank).toNat)

/-- The 64 bits of a number: the sign above its rank. `nan` has the bits of the quiet one. -/
def bits : Binary64 → Nat
  | nan => 0x7FF8000000000000
  | signed negative rank => (if negative then 2 ^ 63 else 0) + rank.val

end Binary64

end RecordQuery
