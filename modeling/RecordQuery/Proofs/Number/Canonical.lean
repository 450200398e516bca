import RecordQuery.Number

/-!
# The number that comes back from a document

A finite number is stored as a numeral, and reading the numeral gives the
number back with a sign if it fits (`Number.exists_toJson_of_isFinite`).
That is the one thing that storing a number changes, and neither its text
nor the number that comparisons take shows it.
-/

namespace RecordQuery.Number

/-- There is a numeral for the number. -/
def isFinite : Number → Bool
  | signed _ | unsigned _ => true
  | float x => x.isFinite

/-- The number as it is read: an unsigned integer has a sign if it fits. -/
def canonical : Number → Number
  | signed n => .signed n
  | unsigned n => if n.toNat < 2 ^ 63 then .signed (Int64.ofNat n.toNat) else .unsigned n
  | float x => .float x

/-- An unsigned number that gets a sign is the same integer. -/
theorem canonical_unsigned (n : UInt64) :
    (∃ m : Int64, (unsigned n).canonical = .signed m ∧ m.toInt = n.toNat)
      ∨ (unsigned n).canonical = .unsigned n := by
  rw [canonical]
  split
  · rename_i h
    exact Or.inl ⟨_, rfl, Int64.toInt_ofNat_of_lt h⟩
  · exact Or.inr rfl

theorem text_canonical (n : Number) : n.canonical.text = n.text := by
  cases n with
  | unsigned n =>
      rcases canonical_unsigned n with ⟨m, hm, hvalue⟩ | hn
      · rw [hm, text, text, hvalue]
      · rw [hn]
  | signed _ | float _ => rfl

theorem toBinary64_canonical (n : Number) : n.canonical.toBinary64 = n.toBinary64 := by
  cases n with
  | unsigned n =>
      rcases canonical_unsigned n with ⟨m, hm, hvalue⟩ | hn
      · rw [hm, toBinary64, toBinary64, hvalue]
      · rw [hn]
  | signed _ | float _ => rfl

theorem isFinite_canonical (n : Number) : n.canonical.isFinite = n.isFinite := by
  cases n with
  | unsigned n =>
      rcases canonical_unsigned n with ⟨m, hm, -⟩ | hn
      · rw [hm, isFinite, isFinite]
      · rw [hn]
  | signed _ | float _ => rfl

theorem canonical_canonical (n : Number) : n.canonical.canonical = n.canonical := by
  cases n with
  | unsigned n =>
      rcases canonical_unsigned n with ⟨m, hm, -⟩ | hn
      · rw [hm, canonical]
      · rw [hn, hn]
  | signed _ | float _ => rfl

/-- A finite number is stored as the numeral of its canonical form. -/
theorem exists_toJson_of_isFinite {n : Number} (h : n.isFinite = true) :
    ∃ numeral, n.toJson = .number numeral ∧ ofJson numeral = n.canonical := by
  cases n with
  | signed n =>
      refine ⟨_, rfl, ?_⟩
      rw [ofJson, if_pos (by exact_mod_cast n.toInt_lt), Int64.ofInt_toInt, canonical]
  | unsigned n =>
      refine ⟨_, rfl, ?_⟩
      rw [ofJson, canonical]
      by_cases hfits : n.toNat < 2 ^ 63
      · rw [if_pos (by exact_mod_cast hfits), if_pos hfits]
        rfl
      · rw [if_neg (by exact_mod_cast hfits), if_neg hfits, Int.toNat_natCast, UInt64.ofNat_toNat]
  | float x =>
      have hfinite : x.isFinite = true := h
      exact ⟨.float x hfinite, by rw [toJson, dif_pos hfinite], rfl⟩

theorem toJson_of_not_isFinite {n : Number} (h : n.isFinite = false) : n.toJson = .null := by
  cases n with
  | signed _ | unsigned _ => cases h
  | float x =>
      have hx : x.isFinite = false := h
      rw [toJson, dif_neg (by simp [hx])]

/-- What is read from a document is finite. -/
theorem isFinite_ofJson (numeral : JsonNumber) : (ofJson numeral).isFinite = true := by
  cases numeral with
  | integer value fits =>
      rw [ofJson]
      split <;> rfl
  | float value finite => exact finite

end RecordQuery.Number
