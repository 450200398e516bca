import RecordQuery.Text.Units

/-!
# UTF-16 units tell texts apart

No character is one of the surrogates, so a unit that is none is a character
by itself, and two that are make one character. A text is therefore known by
its units (`units_inj`), and texts that come neither before nor after each
other in the order of their units are the same (`compareUnits_eq_iff`).
-/

namespace RecordQuery.Text

theorem toNat_cases (c : Char) : c.toNat < 0xD800 ∨ 0xDFFF < c.toNat ∧ c.toNat < 0x110000 :=
  c.valid

/-- The first character of a text is known by the first of its units. -/
theorem charUnits_append_inj {c d : Char} {r s : List Nat}
    (h : charUnits c ++ r = charUnits d ++ s) : c = d ∧ r = s := by
  have hc := toNat_cases c
  have hd := toNat_cases d
  rw [← Char.toNat_inj]
  unfold charUnits at h
  split at h <;> split at h <;> simp only [List.cons_append, List.nil_append, List.cons.injEq] at h
  · exact h
  · omega
  · omega
  · obtain ⟨hhigh, hlow, hrest⟩ := h
    exact ⟨by omega, hrest⟩

theorem charUnits_ne_nil (c : Char) : charUnits c ≠ [] := by
  unfold charUnits
  split <;> exact List.cons_ne_nil _ _

theorem flatMap_charUnits_inj : ∀ {x y : List Char},
    x.flatMap charUnits = y.flatMap charUnits → x = y
  | [], [], _ => rfl
  | [], d :: _, h => by
      have hunits := List.append_eq_nil_iff.mp h.symm
      exact absurd hunits.1 (charUnits_ne_nil d)
  | c :: _, [], h => by
      have hunits := List.append_eq_nil_iff.mp h
      exact absurd hunits.1 (charUnits_ne_nil c)
  | c :: x, d :: y, h => by
      obtain ⟨rfl, hrest⟩ := charUnits_append_inj h
      rw [flatMap_charUnits_inj hrest]

theorem units_inj {s t : String} : units s = units t ↔ s = t :=
  ⟨fun h => String.toList_inj.mp (flatMap_charUnits_inj h), congrArg units⟩

theorem compareUnits_eq_iff {s t : String} : compareUnits s t = .eq ↔ s = t := by
  have hlex : Std.LawfulEqCmp (List.compareLex (compare : Nat → Nat → Ordering)) := inferInstance
  rw [← units_inj, compareUnits, hlex.compare_eq_iff_eq]

end RecordQuery.Text
