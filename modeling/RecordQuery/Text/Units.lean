/-!
# UTF-16 units

The length and the order of a text in UTF-16 code units. A character
below U+10000 is one unit and any other is a surrogate pair, so the
order differs from that of code points: every pair sorts before the
characters from U+E000 to U+FFFF.
-/

namespace RecordQuery.Text

/-- The units of one character: itself, or a high and a low surrogate. -/
def charUnits (c : Char) : List Nat :=
  if c.toNat < 0x10000 then
    [c.toNat]
  else
    [0xD800 + (c.toNat - 0x10000) / 0x400, 0xDC00 + (c.toNat - 0x10000) % 0x400]

def units (s : String) : List Nat :=
  s.toList.flatMap charUnits

/-- The length of a text in units. -/
def unitCount (s : String) : Nat :=
  (units s).length

/-- Texts in the lexicographic order of their units. -/
def compareUnits (a b : String) : Ordering :=
  List.compareLex compare (units a) (units b)

end RecordQuery.Text
