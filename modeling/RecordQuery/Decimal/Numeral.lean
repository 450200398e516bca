import RecordQuery.Decimal.Basic

/-!
# Decimal numerals

The grammar of a decimal number in a text, and the number it denotes. A
numeral has an optional sign, digits with at most one point among or
around them, and an optional exponent. It has at least one digit before
the exponent, and at least one in it.
-/

namespace RecordQuery.Decimal

/-- A leading sign, and the rest. Without one the sign is positive. -/
def splitSign : List Char → Bool × List Char
  | '-' :: rest => (true, rest)
  | '+' :: rest => (false, rest)
  | text => (false, text)

/-- A row of one or more digits and nothing else. -/
def readDigits? (text : List Char) : Option Nat :=
  if !text.isEmpty && text.all Char.isDigit then some (ofDigits text) else none

/-- What may follow the digits of a numeral: nothing, or an exponent. -/
def readExponent? : List Char → Option Int
  | [] => some 0
  | mark :: rest =>
    if mark = 'e' || mark = 'E' then
      let (negative, digits) := splitSign rest
      (readDigits? digits).map fun n => if negative then -(n : Int) else n
    else none

/-- The digits behind a decimal point, if the text starts with one, and the rest. -/
def splitFraction : List Char → List Char × List Char
  | '.' :: rest => (rest.takeWhile Char.isDigit, rest.dropWhile Char.isDigit)
  | text => ([], text)

/-- A numeral without a sign. -/
def readUnsigned? (text : List Char) : Option Decimal :=
  let whole := text.takeWhile Char.isDigit
  let (fraction, rest) := splitFraction (text.dropWhile Char.isDigit)
  if whole.isEmpty && fraction.isEmpty then none
  else (readExponent? rest).map fun e => ⟨ofDigits (whole ++ fraction), e - fraction.length⟩

/-- The number nearest to the one that a numeral denotes, or nothing if the text is no numeral. -/
def readNumeral? (text : List Char) : Option Binary64 :=
  let (negative, unsigned) := splitSign text
  (readUnsigned? unsigned).map (toBinary64 negative)

end RecordQuery.Decimal
