import Mathlib.Computability.Language
import RecordQuery.Proofs.FieldPath.Composition
import RecordQuery.Proofs.Query.AcceptedPaths

/-!
# The grammar of paths

Which texts are read as paths, said of the text and without splitting it:
it has dots only between other characters (`IsWellDotted`). The strict
reader also wants every segment to be a word of the language of
identifiers and indices, which is written here with the operations of
formal languages; a word is matched as a whole, so nothing may stand
behind it.

A path and its segments say the same. No segment has a dot in it, and
with dots between them the segments are the text again
(`intercalate_segments`), so different paths have different segments.
-/

namespace RecordQuery.FieldPath

open Computability

/-! ## Parts between dots -/

theorem splitDots_eq_splitOn : ∀ text : List Char, splitDots text = text.splitOn '.'
  | [] => rfl
  | c :: rest => by
      rw [splitDots, splitDots_eq_splitOn rest, List.splitOn_cons_eq_if_modifyHead]
      by_cases hc : c = '.'
      · rw [if_pos hc, if_pos (beq_iff_eq.mpr hc)]
      · obtain ⟨first, others, hsplit⟩ := List.exists_cons_of_ne_nil (List.splitOn_ne_nil '.' rest)
        rw [if_neg hc, if_neg (fun h => hc (beq_iff_eq.mp h)), hsplit]
        rfl

theorem dot_not_mem_of_mem_splitDots {part : List Char} :
    ∀ {text : List Char}, part ∈ splitDots text → '.' ∉ part
  | [], h => by
      rw [List.mem_singleton.mp h]
      exact List.not_mem_nil
  | c :: rest, h => by
      rw [splitDots] at h
      by_cases hc : c = '.'
      · rw [if_pos hc] at h
        rcases List.mem_cons.mp h with rfl | hrest
        · exact List.not_mem_nil
        · exact dot_not_mem_of_mem_splitDots hrest
      · obtain ⟨first, others, hsplit⟩ := List.exists_cons_of_ne_nil (splitDots_ne_nil rest)
        rw [if_neg hc, hsplit] at h
        have hparts : ∀ other ∈ first :: others, '.' ∉ other := fun other hother =>
          dot_not_mem_of_mem_splitDots (hsplit ▸ hother)
        obtain ⟨hfirst, hothers⟩ := List.forall_mem_cons.mp hparts
        rcases List.mem_cons.mp h with rfl | hmem
        · exact List.not_mem_cons_of_ne_of_not_mem (Ne.symm hc) hfirst
        · exact hothers part hmem

/-- The first part is empty where a dot, or nothing, begins the text. -/
theorem head_splitDots_eq_nil_iff {first : List Char} {others : List (List Char)} :
    ∀ {text : List Char}, splitDots text = first :: others →
      (first = [] ↔ text = [] ∨ ['.'] <+: text)
  | [], h => by
      rw [← (List.cons.inj h).1]
      exact iff_of_true rfl (.inl rfl)
  | c :: rest, h => by
      rw [splitDots] at h
      by_cases hc : c = '.'
      · rw [if_pos hc] at h
        rw [← (List.cons.inj h).1, hc]
        exact iff_of_true rfl (.inr (List.cons_prefix_cons.mpr ⟨rfl, List.nil_prefix⟩))
      · obtain ⟨part, parts, hsplit⟩ := List.exists_cons_of_ne_nil (splitDots_ne_nil rest)
        rw [if_neg hc, hsplit] at h
        rw [← (List.cons.inj h).1]
        refine iff_of_false (List.cons_ne_nil c part) ?_
        rintro (hnil | hprefix)
        · cases hnil
        · exact hc (List.cons_prefix_cons.mp hprefix).1.symm

/-- A further part is empty where a dot ends the text or follows another. -/
theorem nil_mem_tail_splitDots_iff : ∀ text : List Char,
    [] ∈ (splitDots text).tail ↔ ['.'] <:+ text ∨ ['.', '.'] <:+: text
  | [] => by simp [splitDots]
  | c :: rest => by
      have ih := nil_mem_tail_splitDots_iff rest
      obtain ⟨first, others, hsplit⟩ := List.exists_cons_of_ne_nil (splitDots_ne_nil rest)
      have hfirst := head_splitDots_eq_nil_iff hsplit
      rw [hsplit, List.tail_cons] at ih
      rw [splitDots, hsplit, List.suffix_cons_iff, List.infix_cons_iff, List.cons_prefix_cons]
      by_cases hc : c = '.'
      · -- The parts of the rest come behind the empty part before the dot.
        have hlast : ['.'] = '.' :: rest ↔ rest = [] := by
          rw [List.cons.injEq, eq_self, true_and, eq_comm]
        rw [if_pos hc, List.tail_cons, List.mem_cons, eq_comm, hfirst, ih, hc, hlast, eq_self,
          true_and]
        exact or_or_or_comm
      · have hlast : ['.'] ≠ c :: rest := fun h => hc (List.cons.inj h).1.symm
        rw [if_neg hc, List.tail_cons, ih]
        simp [hlast, Ne.symm hc]

theorem nil_mem_splitDots_iff (text : List Char) :
    [] ∈ splitDots text
      ↔ text = [] ∨ ['.'] <+: text ∨ ['.'] <:+ text ∨ ['.', '.'] <:+: text := by
  obtain ⟨first, others, hsplit⟩ := List.exists_cons_of_ne_nil (splitDots_ne_nil text)
  have htail := nil_mem_tail_splitDots_iff text
  rw [hsplit, List.tail_cons] at htail
  rw [hsplit, List.mem_cons, eq_comm, head_splitDots_eq_nil_iff hsplit, htail, or_assoc]

/-! ## Segments -/

/-- With dots between them the segments are the text of the path. -/
theorem intercalate_segments (path : FieldPath) : ".".intercalate path.segments = path.text := by
  apply String.toList_injective
  have hsame : String.toList ∘ String.ofList = id := funext fun _ => String.toList_ofList
  have hlists : path.segments.map String.toList = splitDots path.text.toList := by
    rw [segments, List.map_map, hsame, List.map_id]
  rw [String.toList_intercalate, hlists, splitDots_eq_splitOn]
  exact List.intercalate_splitOn '.'

theorem segments_inj {path other : FieldPath} : path.segments = other.segments ↔ path = other := by
  constructor
  · intro h
    have htext : path.text = other.text := by
      rw [← intercalate_segments path, h, intercalate_segments]
    exact congrArg FieldPath.mk htext
  · exact congrArg segments

theorem dot_not_mem_of_mem_segments {path : FieldPath} {segment : String}
    (h : segment ∈ path.segments) : '.' ∉ segment.toList := by
  obtain ⟨part, hpart, rfl⟩ := List.mem_map.mp h
  rw [String.toList_ofList]
  exact dot_not_mem_of_mem_splitDots hpart

theorem empty_mem_segments_iff (path : FieldPath) :
    "" ∈ path.segments ↔ [] ∈ splitDots path.text.toList := by
  rw [segments, List.mem_map]
  constructor
  · rintro ⟨part, hpart, hempty⟩
    have hnil : part = [] := by rw [← String.toList_ofList (l := part), hempty]; rfl
    exact hnil ▸ hpart
  · exact fun h => ⟨[], h, rfl⟩

/-! ## Dots in a text -/

/-- A text that has something before, between and behind its dots. -/
structure IsWellDotted (text : String) : Prop where
  nonempty : text ≠ ""
  leading : ¬ ['.'] <+: text.toList
  trailing : ¬ ['.'] <:+ text.toList
  adjacent : ¬ ['.', '.'] <:+: text.toList

theorem isWellDotted_iff {text : String} :
    IsWellDotted text ↔ "" ∉ (⟨text⟩ : FieldPath).segments := by
  rw [empty_mem_segments_iff, nil_mem_splitDots_iff, String.toList_eq_nil_iff]
  constructor
  · rintro ⟨hnonempty, hleading, htrailing, hadjacent⟩ (h | h | h | h)
    · exact hnonempty h
    · exact hleading h
    · exact htrailing h
    · exact hadjacent h
  · intro h
    exact ⟨fun h' => h (.inl h'), fun h' => h (.inr (.inl h')),
      fun h' => h (.inr (.inr (.inl h'))), fun h' => h (.inr (.inr (.inr h')))⟩

theorem parse_eq_ok_iff {text : String} : parse text = .ok ⟨text⟩ ↔ IsWellDotted text := by
  have hany : (⟨text⟩ : FieldPath).segments.any String.isEmpty = true
      ↔ "" ∈ (⟨text⟩ : FieldPath).segments := by
    simp only [List.any_eq_true, String.isEmpty_iff, exists_eq_right]
  rw [isWellDotted_iff, parse]
  split
  · rename_i hempty
    rw [String.isEmpty_iff.mp hempty]
    exact iff_of_false nofun (fun h => h (List.mem_singleton.mpr rfl))
  · split
    · rename_i hsegment
      exact iff_of_false nofun (fun h => h (hany.mp hsegment))
    · rename_i hsegment
      exact iff_of_true rfl (fun h => hsegment (hany.mpr h))

/-! ## Segments of a strict path -/

/-- The texts of one character of a kind. -/
def oneOf (kind : Char → Prop) : Language Char :=
  {text | ∃ c, text = [c] ∧ kind c}

/-- A to Z, a to z, the underscore and the dollar sign. -/
def IsLetter (c : Char) : Prop :=
  ('A' ≤ c ∧ c ≤ 'Z') ∨ ('a' ≤ c ∧ c ≤ 'z') ∨ c = '_' ∨ c = '$'

/-- 0 to 9. -/
def IsDigit (c : Char) : Prop :=
  '0' ≤ c ∧ c ≤ '9'

/-- A letter, and then any row of letters and digits. -/
def identifierWord : Language Char :=
  oneOf IsLetter * (oneOf fun c => IsLetter c ∨ IsDigit c)∗

/-- A row of one or more digits. -/
def indexWord : Language Char :=
  oneOf IsDigit * (oneOf IsDigit)∗

theorem nil_not_mem_oneOf_mul {kind : Char → Prop} {l : Language Char} : [] ∉ oneOf kind * l := by
  rw [Language.mem_mul]
  rintro ⟨_, ⟨c, rfl, -⟩, rest, -, h⟩
  cases h

theorem cons_mem_oneOf_mul {kind : Char → Prop} {l : Language Char} {c : Char} {rest : List Char} :
    c :: rest ∈ oneOf kind * l ↔ kind c ∧ rest ∈ l := by
  rw [Language.mem_mul]
  constructor
  · rintro ⟨_, ⟨first, rfl, hfirst⟩, others, hothers, h⟩
    obtain ⟨rfl, rfl⟩ := List.cons.inj h
    exact ⟨hfirst, hothers⟩
  · rintro ⟨hc, hrest⟩
    exact ⟨[c], ⟨c, rfl, hc⟩, rest, hrest, rfl⟩

theorem mem_oneOf_kstar {kind : Char → Prop} {text : List Char} :
    text ∈ (oneOf kind)∗ ↔ ∀ c ∈ text, kind c := by
  rw [Language.mem_kstar]
  constructor
  · rintro ⟨parts, rfl, hparts⟩ c hc
    obtain ⟨part, hpart, hmem⟩ := List.mem_flatten.mp hc
    obtain ⟨other, rfl, hother⟩ := hparts part hpart
    rwa [List.mem_singleton.mp hmem]
  · intro h
    refine ⟨text.map fun c => [c], (List.flatMap_singleton' text).symm, fun part hpart => ?_⟩
    obtain ⟨c, hc, rfl⟩ := List.mem_map.mp hpart
    exact ⟨c, rfl, h c hc⟩

theorem isUpper_iff {c : Char} : c.isUpper = true ↔ 'A' ≤ c ∧ c ≤ 'Z' :=
  decide_eq_true_iff

theorem isLower_iff {c : Char} : c.isLower = true ↔ 'a' ≤ c ∧ c ≤ 'z' :=
  Bool.and_eq_true_iff.trans (and_congr decide_eq_true_iff decide_eq_true_iff)

theorem isDigit_iff {c : Char} : c.isDigit = true ↔ IsDigit c :=
  Bool.and_eq_true_iff.trans (and_congr decide_eq_true_iff decide_eq_true_iff)

theorem startsIdentifier_iff {c : Char} : startsIdentifier c = true ↔ IsLetter c := by
  have halpha : c.isAlpha = (c.isUpper || c.isLower) := rfl
  rw [startsIdentifier, halpha, Bool.or_eq_true, Bool.or_eq_true, Bool.or_eq_true, isUpper_iff,
    isLower_iff, beq_iff_eq, beq_iff_eq, or_assoc, or_assoc, IsLetter]

/-- The check of a segment accepts exactly the words. -/
theorem isIdentifierOrIndex_iff {segment : List Char} :
    isIdentifierOrIndex segment = true ↔ segment ∈ identifierWord + indexWord := by
  rw [Language.mem_add, identifierWord, indexWord]
  cases segment with
  | nil =>
      exact iff_of_false Bool.false_ne_true
        (fun h => h.elim nil_not_mem_oneOf_mul nil_not_mem_oneOf_mul)
  | cons first rest =>
      simp only [isIdentifierOrIndex, cons_mem_oneOf_mul, mem_oneOf_kstar, Bool.or_eq_true,
        Bool.and_eq_true, List.all_eq_true, List.forall_mem_cons, startsIdentifier_iff, isDigit_iff]

theorem parseStrict_eq_ok_iff {text : String} :
    parseStrict text = .ok ⟨text⟩
      ↔ IsWellDotted text
        ∧ ∀ segment ∈ (⟨text⟩ : FieldPath).segments,
            segment.toList ∈ identifierWord + indexWord := by
  have hall : (⟨text⟩ : FieldPath).segments.all (fun segment => isIdentifierOrIndex segment.toList)
      = true ↔ ∀ segment ∈ (⟨text⟩ : FieldPath).segments,
        segment.toList ∈ identifierWord + indexWord := by
    simp only [List.all_eq_true, isIdentifierOrIndex_iff]
  rw [← parse_eq_ok_iff, ← hall]
  constructor
  · intro h
    obtain ⟨path, hparse, hchecked⟩ := exists_of_bind_eq_ok h
    obtain rfl := parse_eq_ok hparse
    refine ⟨hparse, ?_⟩
    split at hchecked
    · assumption
    · cases hchecked
  · rintro ⟨hparse, hsegments⟩
    rw [parseStrict, hparse]
    exact if_pos hsegments

/-! ## What is read -/

/-- The path is written as the text, and its segments are what stands between the dots there. -/
structure IsPathOf (path : FieldPath) (text : String) : Prop where
  written : path = ⟨text⟩
  nonempty : ∀ segment ∈ path.segments, segment ≠ ""
  dotless : ∀ segment ∈ path.segments, '.' ∉ segment.toList
  joined : ".".intercalate path.segments = text

theorem isPathOf_of_parse {text : String} {path : FieldPath} (h : parse text = .ok path) :
    IsPathOf path text := by
  obtain rfl := parse_eq_ok h
  refine ⟨rfl, fun segment hsegment hempty => ?_, fun _ => dot_not_mem_of_mem_segments,
    intercalate_segments _⟩
  exact isWellDotted_iff.mp (parse_eq_ok_iff.mp h) (hempty ▸ hsegment)

theorem parse_of_parseStrict {text : String} {path : FieldPath}
    (h : parseStrict text = .ok path) : parse text = .ok path := by
  obtain rfl := parseStrict_eq_ok h
  exact parse_eq_ok_iff.mpr (parseStrict_eq_ok_iff.mp h).1

/-- The strict reader fails as the other one does, and by itself only over a segment. -/
theorem parseStrict_eq_error {text : String} {e : QueryError} (h : parseStrict text = .error e) :
    parse text = .error e
      ∨ (∃ path, parse text = .ok path) ∧ e = .invalidPath text .notIdentifier := by
  cases hparse : parse text with
  | error other =>
      rw [parseStrict, hparse] at h
      exact .inl h
  | ok path =>
      rw [parseStrict, hparse] at h
      dsimp only [bind, Except.bind] at h
      split at h
      · cases h
      · exact .inr ⟨⟨path, rfl⟩, (Except.error.inj h).symm⟩

/-- **Paths are the texts of the grammar.** A text is read as a path exactly if it is well
dotted, and by the strict reader exactly if all its segments are words besides; that reader
passes on the error of the other one, and has its own only for a text which that one reads. What
is read is the path with this text, whose segments are the text between its dots, and no other
path has these segments. -/
theorem parse_iff_grammar (text : String) :
    ((∃ path, parse text = .ok path) ↔ IsWellDotted text)
    ∧ ((∃ path, parseStrict text = .ok path)
        ↔ IsWellDotted text
          ∧ ∀ segment ∈ (⟨text⟩ : FieldPath).segments,
              segment.toList ∈ identifierWord + indexWord)
    ∧ (∀ e, parse text = .error e → parseStrict text = .error e)
    ∧ (∀ path e, parse text = .ok path → parseStrict text = .error e →
        e = .invalidPath text .notIdentifier)
    ∧ ∀ path, parse text = .ok path ∨ parseStrict text = .ok path →
        IsPathOf path text ∧ ∀ other : FieldPath, other.segments = path.segments ↔ other = path := by
  refine ⟨⟨?_, fun h => ⟨_, parse_eq_ok_iff.mpr h⟩⟩,
    ⟨?_, fun h => ⟨_, parseStrict_eq_ok_iff.mpr h⟩⟩, fun e h => ?_, fun path e hparse h => ?_,
    fun path h => ?_⟩
  · rintro ⟨path, h⟩
    exact parse_eq_ok_iff.mp (parse_eq_ok h ▸ h)
  · rintro ⟨path, h⟩
    exact parseStrict_eq_ok_iff.mp (parseStrict_eq_ok h ▸ h)
  · rw [parseStrict, h]
    rfl
  · rcases parseStrict_eq_error h with hfails | ⟨-, heq⟩
    · cases hparse.symm.trans hfails
    · exact heq
  · exact ⟨isPathOf_of_parse (h.elim id parse_of_parseStrict), fun other => segments_inj⟩

/-- A path of identifiers and an index, one with a line feed behind an identifier, and a text
with two dots in a row. -/
theorem parse_iff_grammar_of_spellings :
    (parseStrict "a.b_c.$d.0" = .ok ⟨"a.b_c.$d.0"⟩
        ∧ IsPathOf ⟨"a.b_c.$d.0"⟩ "a.b_c.$d.0"
        ∧ ∀ segment ∈ (⟨"a.b_c.$d.0"⟩ : FieldPath).segments,
            segment.toList ∈ identifierWord + indexWord)
      ∧ (parse "a.b\n" = .ok ⟨"a.b\n"⟩
        ∧ parseStrict "a.b\n" = .error (.invalidPath "a.b\n" .notIdentifier)
        ∧ ¬ ∀ segment ∈ (⟨"a.b\n"⟩ : FieldPath).segments,
            segment.toList ∈ identifierWord + indexWord)
      ∧ parse "a..1b" = .error (.invalidPath "a..1b" .emptySegment)
      ∧ parseStrict "a..1b" = .error (.invalidPath "a..1b" .emptySegment)
      ∧ ¬ IsWellDotted "a..1b" := by
  have hstrict : parseStrict "a.b_c.$d.0" = .ok ⟨"a.b_c.$d.0"⟩ := by decide +kernel
  have hparse : parse "a.b\n" = .ok ⟨"a.b\n"⟩ := by decide +kernel
  have hrefused : parseStrict "a.b\n" = .error (.invalidPath "a.b\n" .notIdentifier) := by
    decide +kernel
  have hdots : parse "a..1b" = .error (.invalidPath "a..1b" .emptySegment) := by decide +kernel
  obtain ⟨-, hwords, -, -, hpath⟩ := parse_iff_grammar "a.b_c.$d.0"
  obtain ⟨hdotted, hwords', -⟩ := parse_iff_grammar "a.b\n"
  obtain ⟨hdotted', -, hfails, -⟩ := parse_iff_grammar "a..1b"
  refine ⟨⟨hstrict, (hpath _ (.inr hstrict)).1, (hwords.mp ⟨_, hstrict⟩).2⟩,
    ⟨hparse, hrefused, fun hall => ?_⟩, hdots, hfails _ hdots, fun hwell => ?_⟩
  · obtain ⟨path, h⟩ := hwords'.mpr ⟨hdotted.mp ⟨_, hparse⟩, hall⟩
    cases hrefused.symm.trans h
  · obtain ⟨path, h⟩ := hdotted'.mpr hwell
    cases hdots.symm.trans h

end RecordQuery.FieldPath
