import RecordQuery.FieldValue.Coercion
import RecordQuery.Proofs.Binary64.Integers
import RecordQuery.Proofs.Decimal.Literals
import RecordQuery.Proofs.Text.Hexadecimal

/-!
# Which number a text counts as

The texts that stand for a number, and for which: none at all, infinity with
or without a sign, a hexadecimal literal, and a decimal literal
(`Denotes`). A text counts as the number that it stands for, and as `nan` if
it stands for none, with two exceptions among the hexadecimal literals: a
plus sign is accepted behind the mark, and a literal of more than 64 bits is
refused (`toNumber_string_eq_iff_denotes`).
-/

namespace RecordQuery

namespace Binary64

open Decimal (IsSign IsLiteral)
open Text (IsHexRow)

/-! ## The grammar -/

/-- The mark between the zero and the digits of a hexadecimal literal. -/
def IsHexMark (mark : Char) : Prop :=
  mark = 'x' ∨ mark = 'X'

/-- The number that a text without white space around it stands for. -/
inductive Denotes : List Char → Binary64 → Prop where
  | nothing : Denotes [] zero
  | infinite {sign : List Char} {negative : Bool} : IsSign sign negative →
      Denotes (sign ++ "Infinity".toList) (infinity negative)
  | hexadecimal {mark : Char} {digits : List Char} {n rank : Nat} : IsHexMark mark →
      IsHexRow digits n → IsNearest n rank → Denotes ('0' :: mark :: digits) (ofRank false rank)
  | decimal {text : List Char} {negative : Bool} {magnitude : ℚ} {rank : Nat} :
      IsLiteral text negative magnitude → IsNearest magnitude rank →
      Denotes text (ofRank negative rank)

/-- A hexadecimal literal but for a plus sign between its mark and its digits, which have at most 64
bits. -/
def IsSignedHex (text : List Char) (n : Nat) : Prop :=
  ∃ mark digits, text = '0' :: mark :: '+' :: digits ∧ IsHexMark mark ∧ IsHexRow digits n
    ∧ n < 2 ^ 64

/-- A hexadecimal literal of more than 64 bits. -/
def IsLongHex (text : List Char) (n : Nat) : Prop :=
  ∃ mark digits, text = '0' :: mark :: digits ∧ IsHexMark mark ∧ IsHexRow digits n ∧ 2 ^ 64 ≤ n

theorem Denotes.ne_nan {text : List Char} {x : Binary64} (h : Denotes text x) : x ≠ nan := by
  cases h <;> exact nofun

/-! ## Reading each kind of text -/

theorem ofNumeral_infinity {sign : List Char} {negative : Bool} (h : IsSign sign negative) :
    ofNumeral (sign ++ "Infinity".toList) = infinity negative := by
  cases h <;> rfl

theorem ofNumeral_hexadecimal {mark : Char} (digits : List Char) (h : IsHexMark mark) :
    ofNumeral ('0' :: mark :: digits)
      = (Text.readWord? 16 digits).elim nan fun n => ofRatio false n 1 := by
  have hinfinity : '0' :: mark :: digits ≠ "Infinity".toList
      ∧ '0' :: mark :: digits ≠ "+Infinity".toList
      ∧ '0' :: mark :: digits ≠ "-Infinity".toList := by
    simp
  unfold ofNumeral
  rw [if_neg (not_or.mpr ⟨hinfinity.1, hinfinity.2.1⟩), if_neg hinfinity.2.2]
  rcases h with rfl | rfl <;> cases hword : Text.readWord? 16 digits <;> simp [hword]

/-- A text of neither of the other kinds is read as a decimal literal. -/
theorem ofNumeral_eq_readNumeral? {text : List Char}
    (hinfinity : ∀ sign negative, IsSign sign negative → text ≠ sign ++ "Infinity".toList)
    (hhexadecimal : ∀ mark digits, IsHexMark mark → text ≠ '0' :: mark :: digits) :
    ofNumeral text = (Decimal.readNumeral? text).getD nan := by
  have hnone : text ≠ "Infinity".toList := hinfinity _ _ .none
  have hplus : text ≠ "+Infinity".toList := hinfinity _ _ .plus
  have hminus : text ≠ "-Infinity".toList := hinfinity _ _ .minus
  unfold ofNumeral
  rw [if_neg (not_or.mpr ⟨hnone, hplus⟩), if_neg hminus]
  split
  · rename_i digits
    exact absurd rfl (hhexadecimal 'x' digits (Or.inl rfl))
  · rename_i digits
    exact absurd rfl (hhexadecimal 'X' digits (Or.inr rfl))
  · rfl

theorem readNumeral?_infinity {sign : List Char} {negative : Bool} (h : IsSign sign negative) :
    Decimal.readNumeral? (sign ++ "Infinity".toList) = none := by
  cases h <;> rfl

theorem readNumeral?_hexadecimal {mark : Char} (digits : List Char) (h : IsHexMark mark) :
    Decimal.readNumeral? ('0' :: mark :: digits) = none := by
  rcases h with rfl | rfl <;> rfl

theorem readWord?_eq_some_iff {digits : List Char} {n : Nat} :
    Text.readWord? 16 digits = some n
      ↔ (IsHexRow digits n ∨ ∃ row, digits = '+' :: row ∧ IsHexRow row n) ∧ n < 2 ^ 64 := by
  rw [Text.readWord?, Option.filter_eq_some_iff, decide_eq_true_eq,
    Text.readNatural?_sixteen_eq_some_iff]

theorem ofRatio_one {n rank : Nat} (h : IsNearest n rank) :
    ofRatio false n 1 = ofRank false rank := by
  rw [ofRatio, (isNearest_natural n).unique h]

/-- The zero, a mark and digits of at most 64 bits are read whether or not a plus sign stands before
the digits. -/
theorem ofNumeral_of_readWord? {mark : Char} {digits : List Char} {n rank : Nat}
    (hmark : IsHexMark mark) (hdigits : Text.readWord? 16 digits = some n)
    (h : IsNearest n rank) : ofNumeral ('0' :: mark :: digits) = ofRank false rank := by
  rw [ofNumeral_hexadecimal digits hmark, hdigits]
  exact ofRatio_one h

/-! ## Reading by the grammar -/

theorem ofNumeral_of_isSignedHex {text : List Char} {n rank : Nat} (h : IsSignedHex text n)
    (hrank : IsNearest n rank) : ofNumeral text = ofRank false rank := by
  obtain ⟨mark, digits, rfl, hmark, hrow, hn⟩ := h
  exact ofNumeral_of_readWord? hmark
    (readWord?_eq_some_iff.mpr ⟨Or.inr ⟨digits, rfl, hrow⟩, hn⟩) hrank

theorem ofNumeral_of_isLongHex {text : List Char} {n : Nat} (h : IsLongHex text n) :
    ofNumeral text = nan := by
  obtain ⟨mark, digits, rfl, hmark, hrow, hn⟩ := h
  have hrefused : Text.readWord? 16 digits = none := by
    refine Option.eq_none_iff_forall_ne_some.mpr fun m hm => ?_
    obtain ⟨hread | ⟨row, rfl, -⟩, hlt⟩ := readWord?_eq_some_iff.mp hm
    · obtain rfl : n = m := hrow.unique hread
      omega
    · exact hrow.head_ne_plus
  rw [ofNumeral_hexadecimal digits hmark, hrefused]
  rfl

theorem not_denotes_of_isSignedHex {text : List Char} {n : Nat} (h : IsSignedHex text n)
    (x : Binary64) : ¬ Denotes text x := by
  obtain ⟨mark, digits, rfl, hmark, -, -⟩ := h
  generalize htext : '0' :: mark :: '+' :: digits = text
  rintro (_ | hsign | ⟨-, hrow, -⟩ | ⟨hliteral, hnearest⟩)
  · cases htext
  · cases hsign <;> simp at htext
  · obtain ⟨-, hrest⟩ := List.cons.inj htext
    obtain ⟨-, rfl⟩ := List.cons.inj hrest
    exact hrow.head_ne_plus
  · have hread := Decimal.readNumeral?_eq_some_iff.mpr ⟨_, _, _, hliteral, hnearest, rfl⟩
    rw [← htext, readNumeral?_hexadecimal _ hmark] at hread
    cases hread

/-- No text at all stands for zero alone. -/
theorem eq_zero_of_denotes_nil {x : Binary64} (h : Denotes [] x) : x = zero := by
  generalize htext : ([] : List Char) = text at h
  cases h with
  | nothing => rfl
  | infinite hsign => cases hsign <;> simp at htext
  | hexadecimal _ _ _ => cases htext
  | decimal hliteral hnearest =>
      have hread := Decimal.readNumeral?_eq_some_iff.mpr ⟨_, _, _, hliteral, hnearest, rfl⟩
      rw [← htext] at hread
      cases hread

/-- What a text stands for is read, but for hexadecimal literals that are too long. -/
theorem ofNumeral_of_denotes {text : List Char} {x : Binary64} (h : Denotes text x)
    (hne : text ≠ []) (hlong : ∀ n, ¬ IsLongHex text n) : ofNumeral text = x := by
  cases h with
  | nothing => exact absurd rfl hne
  | infinite hsign => exact ofNumeral_infinity hsign
  | @hexadecimal mark digits n rank hmark hrow hnearest =>
      have hn : n < 2 ^ 64 :=
        Nat.lt_of_not_le fun hn => hlong n ⟨mark, digits, rfl, hmark, hrow, hn⟩
      exact ofNumeral_of_readWord? hmark (readWord?_eq_some_iff.mpr ⟨Or.inl hrow, hn⟩) hnearest
  | decimal hliteral hnearest =>
      have hread := Decimal.readNumeral?_eq_some_iff.mpr ⟨_, _, _, hliteral, hnearest, rfl⟩
      rw [ofNumeral_eq_readNumeral?, hread]
      · rfl
      · rintro sign negative hsign rfl
        cases (readNumeral?_infinity hsign).symm.trans hread
      · rintro mark digits hmark rfl
        cases (readNumeral?_hexadecimal digits hmark).symm.trans hread

/-- What is read is what the text stands for, unless there is a plus sign among the hexadecimal
digits. -/
theorem denotes_of_ofNumeral {text : List Char} {x : Binary64} (h : ofNumeral text = x)
    (hx : x ≠ nan) (hsigned : ∀ n, ¬ IsSignedHex text n) : Denotes text x := by
  by_cases hinfinity : ∃ sign negative, IsSign sign negative ∧ text = sign ++ "Infinity".toList
  · obtain ⟨sign, negative, hsign, rfl⟩ := hinfinity
    obtain rfl := (ofNumeral_infinity hsign).symm.trans h
    exact .infinite hsign
  by_cases hhexadecimal : ∃ mark digits, IsHexMark mark ∧ text = '0' :: mark :: digits
  · obtain ⟨mark, digits, hmark, rfl⟩ := hhexadecimal
    rw [ofNumeral_hexadecimal digits hmark] at h
    cases hword : Text.readWord? 16 digits with
    | none =>
        rw [hword] at h
        exact absurd h.symm hx
    | some n =>
        obtain ⟨hrow | ⟨row, rfl, hrow⟩, hn⟩ := readWord?_eq_some_iff.mp hword
        · obtain rfl : ofRatio false n 1 = x := by rwa [hword] at h
          exact .hexadecimal hmark hrow (isNearest_natural n)
        · exact absurd ⟨mark, row, rfl, hmark, hrow, hn⟩ (hsigned n)
  · rw [ofNumeral_eq_readNumeral? (fun sign negative hsign htext =>
        hinfinity ⟨sign, negative, hsign, htext⟩) fun mark digits hmark htext =>
        hhexadecimal ⟨mark, digits, hmark, htext⟩] at h
    cases hread : Decimal.readNumeral? text with
    | none =>
        rw [hread] at h
        exact absurd h.symm hx
    | some y =>
        obtain rfl : y = x := by rwa [hread] at h
        obtain ⟨negative, magnitude, rank, hliteral, hnearest, rfl⟩ :=
          Decimal.readNumeral?_eq_some_iff.mp hread
        exact .decimal hliteral hnearest

end Binary64

namespace FieldValue

open Binary64

theorem toNumber_string_of_ne_nil {s : String} (h : Text.trim s.toList ≠ []) :
    (string s).toNumber = ofNumeral (Text.trim s.toList) :=
  if_neg (mt List.isEmpty_iff.mp h)

theorem toNumber_string_of_nil {s : String} (h : Text.trim s.toList = []) :
    (string s).toNumber = zero :=
  if_pos (List.isEmpty_iff.mpr h)

theorem toNumber_string_of_denotes {s : String} {x : Binary64}
    (h : Denotes (Text.trim s.toList) x) (hlong : ∀ n, ¬ IsLongHex (Text.trim s.toList) n) :
    (string s).toNumber = x := by
  by_cases hnil : Text.trim s.toList = []
  · rw [hnil] at h
    rw [toNumber_string_of_nil hnil, eq_zero_of_denotes_nil h]
  · rw [toNumber_string_of_ne_nil hnil, ofNumeral_of_denotes h hnil hlong]

theorem denotes_of_toNumber_string {s : String} (h : (string s).toNumber ≠ nan)
    (hsigned : ∀ n, ¬ IsSignedHex (Text.trim s.toList) n) :
    Denotes (Text.trim s.toList) (string s).toNumber := by
  by_cases hnil : Text.trim s.toList = []
  · rw [toNumber_string_of_nil hnil, hnil]
    exact .nothing
  · rw [toNumber_string_of_ne_nil hnil] at h ⊢
    exact denotes_of_ofNumeral rfl h hsigned

/-- **A text counts as the number that it stands for** between its outermost characters that are not
white space, and as `nan` if it stands for none. Two kinds of text are exceptions: a plus sign among
hexadecimal digits does not keep them from being read, and more than 64 bits do. -/
theorem toNumber_string_eq_iff_denotes (s : String) :
    let text := Text.trim s.toList
    ((∀ n, ¬ IsSignedHex text n) → (∀ n, ¬ IsLongHex text n) → ∀ x,
        ((string s).toNumber = x ↔ Denotes text x ∨ x = nan ∧ ∀ y, ¬ Denotes text y))
      ∧ (∀ n rank, IsSignedHex text n → IsNearest n rank →
        (∀ y, ¬ Denotes text y) ∧ (string s).toNumber = ofRank false rank)
      ∧ ∀ n rank, IsLongHex text n → IsNearest n rank →
        Denotes text (ofRank false rank) ∧ (string s).toNumber = nan := by
  intro text
  refine ⟨fun hsigned hlong x => ⟨?_, ?_⟩, fun n rank h hrank => ?_, fun n rank h hrank => ?_⟩
  · rintro rfl
    by_cases hnan : (string s).toNumber = nan
    · refine Or.inr ⟨hnan, fun y hy => hy.ne_nan ?_⟩
      rw [← hnan, toNumber_string_of_denotes hy hlong]
    · exact Or.inl (denotes_of_toNumber_string hnan hsigned)
  · rintro (hx | ⟨rfl, hnone⟩)
    · exact toNumber_string_of_denotes hx hlong
    · by_contra hne
      exact hnone _ (denotes_of_toNumber_string hne hsigned)
  · have hnil : text ≠ [] := by
      rintro hnil
      obtain ⟨mark, digits, htext, -⟩ := h
      exact List.cons_ne_nil _ _ (htext.symm.trans hnil)
    exact ⟨not_denotes_of_isSignedHex h,
      (toNumber_string_of_ne_nil hnil).trans (ofNumeral_of_isSignedHex h hrank)⟩
  · have hread := ofNumeral_of_isLongHex h
    obtain ⟨mark, digits, htext, hmark, hrow, -⟩ := h
    have hnil : text ≠ [] := fun hnil => List.cons_ne_nil _ _ (htext.symm.trans hnil)
    exact ⟨htext ▸ .hexadecimal hmark hrow hrank, (toNumber_string_of_ne_nil hnil).trans hread⟩

theorem isSignedHex_literal : IsSignedHex "0x+1F".toList 31 :=
  ⟨'x', "1F".toList, rfl, Or.inl rfl, Text.readRow?_sixteen_eq_some_iff.mp (by decide), by decide⟩

theorem isLongHex_literal : IsLongHex "0X10000000000000000".toList (2 ^ 64) :=
  ⟨'X', "10000000000000000".toList, rfl, Or.inr rfl,
    Text.readRow?_sixteen_eq_some_iff.mp (by decide), le_rfl⟩

/-- A decimal literal between blanks counts as what it denotes. The digits `1F` count as 31 with a
plus sign before them, and one digit more than sixteen is refused. -/
theorem toNumber_string_of_literals :
    let decimal := " -15.0e2 "
    let signed := "0x+1F"
    let long := "0X10000000000000000"
    ((∀ n, ¬ IsSignedHex (Text.trim decimal.toList) n)
      ∧ (∀ n, ¬ IsLongHex (Text.trim decimal.toList) n)
      ∧ Denotes (Text.trim decimal.toList) (ofInt (-1500)))
      ∧ (IsSignedHex (Text.trim signed.toList) 31 ∧ IsNearest (31 : Nat) (nearestRank 31 1)
        ∧ (∀ y, ¬ Denotes (Text.trim signed.toList) y)
        ∧ (string signed).toNumber = ofRank false (nearestRank 31 1))
      ∧ IsLongHex (Text.trim long.toList) (2 ^ 64)
        ∧ IsNearest (2 ^ 64 : Nat) (nearestRank (2 ^ 64) 1)
        ∧ Denotes (Text.trim long.toList) (ofRank false (nearestRank (2 ^ 64) 1))
        ∧ (string long).toNumber = nan := by
  intro decimal signed long
  have hdecimal : Text.trim decimal.toList = "-15.0e2".toList := by decide
  have hnone : ∀ {rest : List Char}, Text.trim decimal.toList ≠ '0' :: rest := by
    intro rest h
    cases hdecimal.symm.trans h
  have hshort : ∀ n, ¬ IsSignedHex (Text.trim decimal.toList) n :=
    fun n ⟨_, _, htext, _⟩ => hnone htext
  have hlong : ∀ n, ¬ IsLongHex (Text.trim decimal.toList) n :=
    fun n ⟨_, _, htext, _⟩ => hnone htext
  have hsigned : IsSignedHex (Text.trim signed.toList) 31 := by
    rw [show Text.trim signed.toList = "0x+1F".toList by decide]
    exact isSignedHex_literal
  have hbits : IsLongHex (Text.trim long.toList) (2 ^ 64) := by
    rw [show Text.trim long.toList = "0X10000000000000000".toList by decide]
    exact isLongHex_literal
  refine ⟨⟨hshort, hlong, ?_⟩, ⟨hsigned, isNearest_natural 31, ?_⟩, hbits,
    isNearest_natural (2 ^ 64), ?_⟩
  · have hread : (string decimal).toNumber = ofInt (-1500) := by decide +kernel
    rcases ((toNumber_string_eq_iff_denotes decimal).1 hshort hlong _).mp hread with h | ⟨h, -⟩
    · exact h
    · cases h
  · exact (toNumber_string_eq_iff_denotes signed).2.1 31 _ hsigned (isNearest_natural 31)
  · exact (toNumber_string_eq_iff_denotes long).2.2 (2 ^ 64) _ hbits (isNearest_natural (2 ^ 64))

/-- The text `0x+1F` stands for no number but counts as 31, and the hexadecimal literal of 2^64
stands for one but counts as `nan`. -/
theorem toNumber_string_of_exceptions :
    ((∀ y, ¬ Denotes (Text.trim "0x+1F".toList) y) ∧ (string "0x+1F").toNumber = ofInt 31)
      ∧ Denotes (Text.trim "0X10000000000000000".toList) (ofInt (2 ^ 64))
      ∧ (string "0X10000000000000000").toNumber = nan := by
  have hsigned : Text.trim "0x+1F".toList = "0x+1F".toList := by decide
  have hlong : Text.trim "0X10000000000000000".toList = "0X10000000000000000".toList := by decide
  rw [hsigned, hlong]
  refine ⟨⟨not_denotes_of_isSignedHex isSignedHex_literal, by decide +kernel⟩, ?_,
    by decide +kernel⟩
  obtain ⟨mark, digits, htext, hmark, hrow, -⟩ := isLongHex_literal
  rw [htext]
  exact .hexadecimal hmark hrow (isNearest_natural (2 ^ 64))

end FieldValue

end RecordQuery
