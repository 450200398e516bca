import RecordQuery.Decimal.Numeral
import RecordQuery.Proofs.Decimal.Nearest
import RecordQuery.Proofs.Text.Delimited

/-!
# The grammar of decimal literals

Which texts are decimal literals and what each denotes, said by rules that
put a literal together from its parts (`IsLiteral`). Reading goes the other
way and takes a text apart, always at the first character that is no digit.
It accepts exactly the literals, and gives the number nearest to the one
denoted (`readNumeral?_eq_some_iff`).
-/

namespace RecordQuery.Decimal

open Binary64 (IsNearest ofRank)
open Text (Stops)

/-! ## The grammar -/

/-- A sign or no sign, and whether it is the negative one. -/
inductive IsSign : List Char → Bool → Prop where
  | none : IsSign [] false
  | plus : IsSign ['+'] false
  | minus : IsSign ['-'] true

/-- One or more digits. -/
structure IsRow (text : List Char) : Prop where
  ne_nil : text ≠ []
  digits : text.all Char.isDigit

/-- Digits with at most one point among or around them, and which of them stand before and behind
it. -/
inductive IsMantissa : List Char → List Char → List Char → Prop where
  | whole {whole : List Char} : IsRow whole → IsMantissa whole whole []
  | pointed {whole fraction : List Char} : IsRow whole → fraction.all Char.isDigit →
      IsMantissa (whole ++ '.' :: fraction) whole fraction
  | fraction {fraction : List Char} : IsRow fraction → IsMantissa ('.' :: fraction) [] fraction

/-- An exponent with its mark, or nothing for the exponent zero. -/
inductive IsExponent : List Char → Int → Prop where
  | none : IsExponent [] 0
  | marked {mark : Char} {sign digits : List Char} {negative : Bool} : mark = 'e' ∨ mark = 'E' →
      IsSign sign negative → IsRow digits →
      IsExponent (mark :: (sign ++ digits))
        (if negative then -(ofDigits digits : Int) else ofDigits digits)

/-- A decimal literal, whether it is negative, and the magnitude that it denotes. -/
inductive IsLiteral : List Char → Bool → ℚ → Prop where
  | parts {sign mantissa whole fraction mark : List Char} {negative : Bool} {exponent : Int} :
      IsSign sign negative → IsMantissa mantissa whole fraction → IsExponent mark exponent →
      IsLiteral (sign ++ (mantissa ++ mark)) negative
        ((ofDigits whole + ofDigits fraction / 10 ^ fraction.length) * (10 : ℚ) ^ exponent)

theorem ofDigits_append (first second : List Char) :
    ofDigits (first ++ second) = 10 ^ second.length * ofDigits first + ofDigits second := by
  rw [ofDigits, Nat.ofDigitChars_append, Nat.ofDigitChars_eq_ofDigitChars_zero]
  rfl

/-- The digits of a mantissa as one natural have the value of the literal in a lower place. -/
theorem value_ofDigits_append (whole fraction : List Char) (exponent : Int) :
    value ⟨ofDigits (whole ++ fraction), exponent - fraction.length⟩
      = (ofDigits whole + ofDigits fraction / 10 ^ fraction.length) * (10 : ℚ) ^ exponent := by
  have hpower : (10 : ℚ) ^ fraction.length ≠ 0 := by positivity
  rw [value, ofDigits_append, zpow_sub₀ (by norm_num), zpow_natCast]
  push_cast
  field_simp

/-! ## Taking a text apart -/

theorem stops_of_head {kind : Char → Bool} {c : Char} {rest : List Char} (h : kind c = false) :
    Stops kind (c :: rest) := by
  simp [Stops, h]

theorem dropWhile_eq_self {kind : Char → Bool} {rest : List Char} (h : Stops kind rest) :
    rest.dropWhile kind = rest := by
  cases rest with
  | nil => rfl
  | cons c rest => exact List.dropWhile_cons_of_neg (by simpa [Stops] using h)

/-- Digits end where the first of another kind stands. -/
theorem takeWhile_append_of_stops {digits rest : List Char} (hdigits : digits.all Char.isDigit)
    (hrest : Stops Char.isDigit rest) : (digits ++ rest).takeWhile Char.isDigit = digits := by
  rw [List.takeWhile_append_of_pos (List.all_eq_true.mp hdigits), hrest.takeWhile_eq_nil,
    List.append_nil]

theorem dropWhile_append_of_stops {digits rest : List Char} (hdigits : digits.all Char.isDigit)
    (hrest : Stops Char.isDigit rest) : (digits ++ rest).dropWhile Char.isDigit = rest := by
  rw [List.dropWhile_append_of_pos (List.all_eq_true.mp hdigits), dropWhile_eq_self hrest]

theorem IsRow.head_isDigit {c : Char} {rest : List Char} (h : IsRow (c :: rest)) :
    c.isDigit = true :=
  List.all_eq_true.mp h.digits c List.mem_cons_self

/-! ## Signs -/

theorem exists_of_splitSign (text : List Char) :
    ∃ sign, IsSign sign (splitSign text).1 ∧ text = sign ++ (splitSign text).2 := by
  unfold splitSign
  split
  · exact ⟨_, .minus, rfl⟩
  · exact ⟨_, .plus, rfl⟩
  · exact ⟨_, .none, rfl⟩

/-- A sign is split off what does not begin with one. -/
theorem splitSign_append {sign rest : List Char} {negative : Bool} (h : IsSign sign negative)
    (hrest : Stops (['+', '-'].contains ·) rest) :
    splitSign (sign ++ rest) = (negative, rest) := by
  cases h with
  | plus | minus => rfl
  | none =>
      rw [List.nil_append]
      unfold splitSign
      split
      · simp [Stops] at hrest
      · simp [Stops] at hrest
      · rfl

/-! ## Exponents -/

theorem readDigits?_eq_some_iff {text : List Char} {n : Nat} :
    readDigits? text = some n ↔ IsRow text ∧ ofDigits text = n := by
  unfold readDigits?
  split
  · rename_i h
    rw [Bool.and_eq_true, Bool.not_eq_true', List.isEmpty_eq_false_iff] at h
    rw [Option.some.injEq]
    exact ⟨fun hn => ⟨⟨h.1, h.2⟩, hn⟩, And.right⟩
  · rename_i h
    rw [Bool.and_eq_true, Bool.not_eq_true', List.isEmpty_eq_false_iff] at h
    exact iff_of_false (by simp) fun hrow => h ⟨hrow.1.ne_nil, hrow.1.digits⟩

theorem readExponent?_cons (mark : Char) (rest : List Char) :
    readExponent? (mark :: rest)
      = if mark = 'e' ∨ mark = 'E' then
          (readDigits? (splitSign rest).2).map fun n : Nat =>
            if (splitSign rest).1 then -(n : Int) else n
        else none := by
  rw [readExponent?]
  simp only [Bool.or_eq_true, decide_eq_true_eq]
  cases readDigits? (splitSign rest).2 <;> rfl

/-- Digits do not begin with a sign. -/
theorem IsRow.stops_sign {text : List Char} (h : IsRow text) :
    Stops (['+', '-'].contains ·) text := by
  cases text with
  | nil => rfl
  | cons c rest =>
      have hdigit := h.head_isDigit
      refine stops_of_head ?_
      rw [Bool.eq_false_iff]
      intro hsign
      rcases List.mem_cons.mp (List.contains_iff_mem.mp hsign) with rfl | hsign
      · exact absurd hdigit (by decide)
      · obtain rfl := List.mem_singleton.mp hsign
        exact absurd hdigit (by decide)

/-- Reading accepts exactly the exponents. -/
theorem readExponent?_eq_some_iff {text : List Char} {exponent : Int} :
    readExponent? text = some exponent ↔ IsExponent text exponent := by
  constructor
  · intro h
    cases text with
    | nil =>
        obtain rfl := Option.some.inj h
        exact .none
    | cons mark rest =>
        rw [readExponent?_cons, Option.ite_none_right_eq_some, Option.map_eq_some_iff] at h
        obtain ⟨hmark, n, hn, rfl⟩ := h
        obtain ⟨hrow, rfl⟩ := readDigits?_eq_some_iff.mp hn
        obtain ⟨sign, hsign, hrest⟩ := exists_of_splitSign rest
        have hexponent := IsExponent.marked hmark hsign hrow
        rwa [← hrest] at hexponent
  · rintro (_ | ⟨hmark, hsign, hrow⟩)
    · rfl
    · rw [readExponent?_cons, if_pos hmark, splitSign_append hsign hrow.stops_sign,
        readDigits?_eq_some_iff.mpr ⟨hrow, rfl⟩]
      rfl

/-- An exponent begins with no digit. -/
theorem IsExponent.stops_isDigit {text : List Char} {exponent : Int}
    (h : IsExponent text exponent) : Stops Char.isDigit text := by
  cases h with
  | none => rfl
  | marked hmark _ _ =>
      refine stops_of_head ?_
      rcases hmark with rfl | rfl <;> rfl

/-! ## Literals without a sign -/

theorem splitFraction_point (rest : List Char) :
    splitFraction ('.' :: rest) = (rest.takeWhile Char.isDigit, rest.dropWhile Char.isDigit) :=
  rfl

theorem splitFraction_of_stops {text : List Char} (h : Stops (· == '.') text) :
    splitFraction text = ([], text) := by
  unfold splitFraction
  split
  · simp [Stops] at h
  · rfl

theorem IsExponent.stops_point {text : List Char} {exponent : Int}
    (h : IsExponent text exponent) : Stops (· == '.') text := by
  cases h with
  | none => rfl
  | marked hmark _ _ =>
      refine stops_of_head ?_
      rcases hmark with rfl | rfl <;> rfl

/-- A text is taken apart into its digits, those behind a point, and the rest. -/
theorem readUnsigned?_eq (text : List Char) :
    readUnsigned? text
      = if text.takeWhile Char.isDigit = []
            ∧ (splitFraction (text.dropWhile Char.isDigit)).1 = [] then none
        else (readExponent? (splitFraction (text.dropWhile Char.isDigit)).2).map fun e =>
          ⟨ofDigits (text.takeWhile Char.isDigit
              ++ (splitFraction (text.dropWhile Char.isDigit)).1),
            e - (splitFraction (text.dropWhile Char.isDigit)).1.length⟩ := by
  rw [readUnsigned?]
  simp only [Bool.and_eq_true, List.isEmpty_iff]

/-- A text that is put together of digits, what may follow them and an exponent comes apart at these
seams. -/
theorem readUnsigned?_append {whole fraction pointed mark : List Char} {exponent : Int}
    (hwhole : whole.all Char.isDigit) (hfraction : fraction.all Char.isDigit)
    (hne : whole ≠ [] ∨ fraction ≠ [])
    (hpointed : pointed = '.' :: fraction ∨ pointed = [] ∧ fraction = [])
    (hmark : IsExponent mark exponent) :
    readUnsigned? (whole ++ (pointed ++ mark))
      = some ⟨ofDigits (whole ++ fraction), exponent - fraction.length⟩ := by
  have hstops : Stops Char.isDigit (pointed ++ mark) := by
    rcases hpointed with rfl | ⟨rfl, -⟩
    · exact stops_of_head rfl
    · exact hmark.stops_isDigit
  have hsplit : splitFraction (pointed ++ mark) = (fraction, mark) := by
    rcases hpointed with rfl | ⟨rfl, rfl⟩
    · rw [List.cons_append, splitFraction_point,
        takeWhile_append_of_stops hfraction hmark.stops_isDigit,
        dropWhile_append_of_stops hfraction hmark.stops_isDigit]
    · exact splitFraction_of_stops hmark.stops_point
  rw [readUnsigned?_eq, takeWhile_append_of_stops hwhole hstops,
    dropWhile_append_of_stops hwhole hstops, hsplit, if_neg (by tauto),
    readExponent?_eq_some_iff.mpr hmark]
  rfl

theorem exists_of_splitFraction (text : List Char) :
    ∃ pointed, text = pointed ++ (splitFraction text).2
      ∧ (pointed = '.' :: (splitFraction text).1 ∨ pointed = [] ∧ (splitFraction text).1 = [])
      ∧ (splitFraction text).1.all Char.isDigit := by
  unfold splitFraction
  split
  · rename_i rest
    refine ⟨'.' :: rest.takeWhile Char.isDigit, ?_, Or.inl rfl, List.all_takeWhile⟩
    rw [List.cons_append, List.takeWhile_append_dropWhile]
  · exact ⟨[], rfl, Or.inr ⟨rfl, rfl⟩, rfl⟩

/-- Digits with a point and digits behind it, or without both, are a mantissa unless there is no
digit at all. -/
theorem isMantissa_append {whole fraction pointed : List Char} (hwhole : whole.all Char.isDigit)
    (hfraction : fraction.all Char.isDigit) (hne : whole ≠ [] ∨ fraction ≠ [])
    (hpointed : pointed = '.' :: fraction ∨ pointed = [] ∧ fraction = []) :
    IsMantissa (whole ++ pointed) whole fraction := by
  rcases hpointed with rfl | ⟨rfl, rfl⟩
  · by_cases hnil : whole = []
    · subst hnil
      exact .fraction ⟨hne.resolve_left (by simp), hfraction⟩
    · exact .pointed ⟨hnil, hwhole⟩ hfraction
  · rw [List.append_nil]
    exact .whole ⟨hne.resolve_right (by simp), hwhole⟩

/-- Reading accepts exactly what is put together of a mantissa and an exponent. -/
theorem readUnsigned?_eq_some_iff {text : List Char} {d : Decimal} :
    readUnsigned? text = some d ↔ ∃ mantissa whole fraction mark exponent,
      text = mantissa ++ mark ∧ IsMantissa mantissa whole fraction ∧ IsExponent mark exponent
        ∧ d = ⟨ofDigits (whole ++ fraction), exponent - fraction.length⟩ := by
  constructor
  · intro h
    obtain ⟨pointed, hpart, hpointed, hfraction⟩ :=
      exists_of_splitFraction (text.dropWhile Char.isDigit)
    rw [readUnsigned?_eq, Option.ite_none_left_eq_some, Option.map_eq_some_iff] at h
    obtain ⟨hne, exponent, hexponent, rfl⟩ := h
    refine ⟨text.takeWhile Char.isDigit ++ pointed, _, _, _, exponent, ?_,
      isMantissa_append List.all_takeWhile hfraction (not_and_or.mp hne) hpointed,
      readExponent?_eq_some_iff.mp hexponent, rfl⟩
    rw [List.append_assoc, ← hpart, List.takeWhile_append_dropWhile]
  · rintro ⟨mantissa, whole, fraction, mark, exponent, rfl, hmantissa, hmark, rfl⟩
    cases hmantissa with
    | whole hrow =>
        show readUnsigned? (mantissa ++ ([] ++ mark)) = _
        exact readUnsigned?_append hrow.digits rfl (Or.inl hrow.ne_nil) (Or.inr ⟨rfl, rfl⟩) hmark
    | pointed hrow hfraction =>
        rw [List.append_assoc]
        exact readUnsigned?_append hrow.digits hfraction (Or.inl hrow.ne_nil) (Or.inl rfl) hmark
    | fraction hrow =>
        show readUnsigned? ([] ++ (('.' :: fraction) ++ mark)) = _
        exact readUnsigned?_append rfl hrow.digits (Or.inr hrow.ne_nil) (Or.inl rfl) hmark

/-! ## Literals -/

/-- What is read without a sign does not begin with one. -/
theorem IsMantissa.stops_sign {mantissa whole fraction : List Char}
    (h : IsMantissa mantissa whole fraction) (rest : List Char) :
    Stops (['+', '-'].contains ·) (mantissa ++ rest) := by
  have hrow : ∀ {digits : List Char}, IsRow digits → ∀ rest : List Char,
      Stops (['+', '-'].contains ·) (digits ++ rest) := by
    intro digits hdigits rest
    obtain ⟨c, tail, rfl⟩ := List.exists_cons_of_ne_nil hdigits.ne_nil
    exact hdigits.stops_sign
  cases h with
  | whole hwhole => exact hrow hwhole rest
  | pointed hwhole _ =>
      rw [List.append_assoc]
      exact hrow hwhole _
  | fraction _ => exact stops_of_head rfl

/-- **Reading accepts exactly the decimal literals**, and gives for each the number nearest to the
one that it denotes. -/
theorem readNumeral?_eq_some_iff {text : List Char} {x : Binary64} :
    readNumeral? text = some x ↔ ∃ negative magnitude rank,
      IsLiteral text negative magnitude ∧ IsNearest magnitude rank ∧ x = ofRank negative rank := by
  have hread : readNumeral? text
      = (readUnsigned? (splitSign text).2).map (toBinary64 (splitSign text).1) := rfl
  rw [hread, Option.map_eq_some_iff]
  constructor
  · rintro ⟨d, hd, rfl⟩
    obtain ⟨sign, hsign, htext⟩ := exists_of_splitSign text
    obtain ⟨mantissa, whole, fraction, mark, exponent, hrest, hmantissa, hmark, rfl⟩ :=
      readUnsigned?_eq_some_iff.mp hd
    have hnearest := isNearest_value ⟨ofDigits (whole ++ fraction), exponent - fraction.length⟩
    have hliteral := IsLiteral.parts hsign hmantissa hmark
    rw [← hrest, ← htext, ← value_ofDigits_append] at hliteral
    exact ⟨_, _, _, hliteral, hnearest, toBinary64_eq_ofRank _ hnearest⟩
  · rintro ⟨negative, magnitude, rank, hliteral, hrank, rfl⟩
    cases hliteral with
    | @parts sign mantissa whole fraction mark _ exponent hsign hmantissa hmark =>
        rw [← value_ofDigits_append] at hrank
        rw [splitSign_append hsign (hmantissa.stops_sign mark)]
        exact ⟨_, readUnsigned?_eq_some_iff.mpr ⟨_, _, _, _, _, rfl, hmantissa, hmark, rfl⟩,
          toBinary64_eq_ofRank negative hrank⟩

end RecordQuery.Decimal
