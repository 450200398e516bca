/-!
# White space

The characters that count as white space around a number or an operator
token, and the removal of them from both ends of a text. The set is the
Unicode property White_Space, which is wider than `Char.isWhitespace`:
it has the no-break space, the line separators and the typographic
spaces too.
-/

namespace RecordQuery.Text

/-- The code points of white space, in ascending order. -/
def blanks : List Nat :=
  [0x09, 0x0A, 0x0B, 0x0C, 0x0D, 0x20, 0x85, 0xA0, 0x1680,
   0x2000, 0x2001, 0x2002, 0x2003, 0x2004, 0x2005, 0x2006, 0x2007,
   0x2008, 0x2009, 0x200A, 0x2028, 0x2029, 0x202F, 0x205F, 0x3000]

def isBlank (c : Char) : Bool :=
  blanks.contains c.toNat

def trimStart (text : List Char) : List Char :=
  text.dropWhile isBlank

def trimEnd (text : List Char) : List Char :=
  (text.reverse.dropWhile isBlank).reverse

/-- The text between its outermost characters that are not white space. -/
def trim (text : List Char) : List Char :=
  trimEnd (trimStart text)

end RecordQuery.Text
