import RecordQuery.Text.Cased
import RecordQuery.Text.CaseIgnorable
import RecordQuery.Text.LowerMap

/-!
# Lower case text

The full lower case form of a text. Every character is mapped on its own,
with two exceptions: the capital I with a dot above becomes two
characters, and a capital sigma looks at its neighbours, because it has
another small form at the end of a word.
-/

namespace RecordQuery.Text

def inRanges (code : Nat) : List (Nat × Nat) → Bool
  | [] => false
  | (first, last) :: rest => decide (first ≤ code) && (decide (code ≤ last) || inRanges code rest)

def isCased (c : Char) : Bool :=
  inRanges c.toNat casedRanges

def isCaseIgnorable (c : Char) : Bool :=
  inRanges c.toNat caseIgnorableRanges

/-- The lower case form of a character that does not look at its neighbours. -/
def lowerChar (c : Char) : List Char :=
  if c = '\u0130' then ['i', '\u0307']
  else match findLowerRun c.toNat lowerRuns with
    | none => [c]
    | some run => [Char.ofNat ((c.toNat : Int) + run.shift).toNat]

/-- The first of the characters that is not passed over is a cased letter. -/
def meetsLetter (cs : List Char) : Bool :=
  match cs.dropWhile isCaseIgnorable with
  | [] => false
  | c :: _ => isCased c

/-- The small form of a capital sigma: final when a letter comes before it in the word and none
after. The characters before it are given nearest first. -/
def lowerSigma (before after : List Char) : Char :=
  if meetsLetter before && !meetsLetter after then 'ς' else 'σ'

/-- The lower case form of the rest of a text, given what comes before it, nearest first. -/
def lowerFrom (before : List Char) : List Char → List Char
  | [] => []
  | c :: after =>
    (if c = 'Σ' then [lowerSigma before after] else lowerChar c) ++ lowerFrom (c :: before) after

def lowercase (s : String) : String :=
  String.ofList (lowerFrom [] s.toList)

example : lowercase "ÀÉ ǅ" = "àé ǆ" := by decide +kernel
example : lowercase "ΣΑΣ, Σ" = "σας, σ" := by decide +kernel

end RecordQuery.Text
