/-!
# Occurrences

Whether one text occurs inside another as a run of consecutive
characters. The empty text occurs in every text.
-/

namespace RecordQuery.Text

/-- The needle stands at the head of the characters, or occurs further on. -/
def occursIn (needle : List Char) : List Char → Bool
  | [] => needle.isEmpty
  | c :: rest => needle.isPrefixOf (c :: rest) || occursIn needle rest

def contains (text needle : String) : Bool :=
  occursIn needle.toList text.toList

/-- Occurring is being an infix. -/
theorem occursIn_iff {needle text : List Char} :
    occursIn needle text = true ↔ needle <:+: text := by
  induction text with
  | nil => simp [occursIn]
  | cons c rest ih => simp [occursIn, ih, List.infix_cons_iff]

end RecordQuery.Text
