import RecordQuery.Text.Blank
import RecordQuery.Text.Natural
import RecordQuery.Decimal.Numeral
import RecordQuery.Decimal.Shortest
import RecordQuery.Decimal.Layout

/-!
# Numbers in text

How a binary64 number is written as text, and which number a text counts
as when a number is wanted of it. Writing takes the shortest decimal.
Reading is forgiving at the ends only: white space around a numeral is
passed over and no text at all is zero, but a text that is not a numeral
from end to end counts as `nan`.
-/

namespace RecordQuery.Binary64

/-- Magnitudes from 10^-6 up to and without 10^21 are written without an exponent. -/
def layout : Decimal.Layout := ⟨-5, 21⟩

/-- The text of a number. Both zeros are `0`. -/
def text : Binary64 → String
  | nan => "NaN"
  | signed negative rank =>
    if rank.val = 0 then "0"
    else
      let magnitude :=
        if infinityRank ≤ rank.val then "Infinity"
        else String.ofList ((Decimal.shortest rank.val).write layout)
      if negative then "-" ++ magnitude else magnitude

/-- The number of a text that has no white space around it and is not empty. A hexadecimal
numeral has no sign before its mark, and must fit 64 bits. -/
def ofNumeral (text : List Char) : Binary64 :=
  if text = "Infinity".toList ∨ text = "+Infinity".toList then infinity false
  else if text = "-Infinity".toList then infinity true
  else match text with
    | '0' :: 'x' :: digits | '0' :: 'X' :: digits =>
      match Text.readWord? 16 digits with
      | some n => ofRatio false n 1
      | none => nan
    | _ => (Decimal.readNumeral? text).getD nan

/-- The number that a text counts as. -/
def ofText (s : String) : Binary64 :=
  let trimmed := Text.trim s.toList
  if trimmed.isEmpty then zero else ofNumeral trimmed

example : (ofText "123456789012345680000").text = "123456789012345680000" := by decide +kernel
example : (ofText "1e21").text = "1e+21" := by decide +kernel
example : (ofText "-0.0000015").text = "-0.0000015" := by decide +kernel
example : (ofText "1.50e-7").text = "1.5e-7" := by decide +kernel
example : (ofText "3e-324").text = "5e-324" := by decide +kernel
example : (ofText "-1e999").text = "-Infinity" := by decide +kernel
example : ofText " 0x1F " = ofInt 31 := by decide +kernel

end RecordQuery.Binary64
