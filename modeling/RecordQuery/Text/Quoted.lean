/-!
# Quoted text

A text between single quotes. A quote and a backslash inside it are
written after a backslash, and a line feed as a backslash and an `n`, so
the closing quote is the first quote that no backslash precedes.
-/

namespace RecordQuery.Text

/-- What stands for one character between the quotes. -/
def escapeChar (c : Char) : List Char :=
  if c = '\'' then ['\\', '\'']
  else if c = '\\' then ['\\', '\\']
  else if c = '\n' then ['\\', 'n']
  else [c]

def escape (text : List Char) : List Char :=
  text.flatMap escapeChar

/-- A text with its quotes. -/
def quote (s : String) : String :=
  "'" ++ String.ofList (escape s.toList) ++ "'"

example : quote "it's\n" = "'it\\'s\\n'" := by decide +kernel

end RecordQuery.Text
