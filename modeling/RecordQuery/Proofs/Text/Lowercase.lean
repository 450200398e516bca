import RecordQuery.Text.Lowercase

/-!
# Lower case text stays as it is

Making a text lower case twice is making it lower case once. A character
that stands for itself in lower case (`IsLower`) is left alone wherever
it stands, and all characters of a lower case text are of this kind: the
table of runs sends no code point to one that a run moves in its turn,
nor to one of the two exceptions (`lowerRuns_settle`).
-/

namespace RecordQuery.Text

/-- No run moves a code point from `first` to `last`, `step` apart: each run lies before them
all, behind them all, or with its code points between theirs. -/
def passes (first last step : Nat) : List LowerRun → Bool
  | [] => true
  | run :: rest =>
    last < run.first
      || ((run.last < first
          || (run.step == 2 && (step == 2 || first == last) && (first + run.first) % 2 == 1))
        && passes first last step rest)

theorem findLowerRun_of_passes {first last step code : Nat} (hfirst : first ≤ code)
    (hlast : code ≤ last) (hstep : (code - first) % step = 0) :
    ∀ {runs : List LowerRun}, passes first last step runs = true → findLowerRun code runs = none
  | [], _ => rfl
  | run :: rest, h => by
      rw [findLowerRun]
      by_cases hbefore : code < run.first
      · rw [if_pos hbefore]
      · rw [passes, Bool.or_eq_true, decide_eq_true_eq] at h
        have hnot : ¬ last < run.first := by omega
        obtain ⟨hmissed, hrest⟩ := Bool.and_eq_true_iff.mp (h.resolve_left hnot)
        simp only [Bool.or_eq_true, Bool.and_eq_true, decide_eq_true_eq, beq_iff_eq] at hmissed
        have hpassed :
            (decide (code ≤ run.last) && (code - run.first) % run.step == 0) = false := by
          rw [Bool.and_eq_false_iff, decide_eq_false_iff_not, beq_eq_false_iff_ne]
          rcases hmissed with hbehind | ⟨⟨hrun, hown⟩, hodd⟩
          · exact Or.inl (by omega)
          · -- Both have one parity each, and not the same.
            refine Or.inr ?_
            rw [hrun]
            rcases hown with rfl | rfl <;> omega
        rw [if_neg hbefore, hpassed, if_neg Bool.false_ne_true]
        exact findLowerRun_of_passes hfirst hlast hstep hrest

theorem mem_of_findLowerRun {code : Nat} {run : LowerRun} :
    ∀ {runs : List LowerRun}, findLowerRun code runs = some run →
      run ∈ runs ∧ run.first ≤ code ∧ code ≤ run.last ∧ (code - run.first) % run.step = 0
  | first :: rest, h => by
      rw [findLowerRun] at h
      split at h
      · cases h
      · rename_i hfirst
        split at h
        · rename_i hin
          obtain rfl := Option.some.inj h
          rw [Bool.and_eq_true, decide_eq_true_eq, beq_iff_eq] at hin
          exact ⟨List.mem_cons_self, Nat.le_of_not_lt hfirst, hin.1, hin.2⟩
        · exact (mem_of_findLowerRun h).imp_left (List.mem_cons_of_mem first)

/-- Where a run leads to, no run moves anything, and neither does it lead to the capital I with
a dot above. -/
theorem lowerRuns_settle : ∀ run ∈ lowerRuns, 0 ≤ (run.first : Int) + run.shift
    ∧ (run.last + run.shift < 0x130 ∨ 0x130 < run.first + run.shift)
    ∧ passes (run.first + run.shift).toNat (run.last + run.shift).toNat run.step
        lowerRuns = true := by
  decide +kernel

/-! ## Characters in lower case -/

/-- A number that is no code point stands for the character 0. -/
theorem toNat_ofNat_cases (n : Nat) : (Char.ofNat n).toNat = n ∨ (Char.ofNat n).toNat = 0 := by
  by_cases hvalid : n.isValidChar
  · rw [Char.ofNat, dif_pos hvalid]
    exact Or.inl rfl
  · rw [Char.ofNat, dif_neg hvalid]
    exact Or.inr rfl

/-- The character is its own lower case form, wherever it stands. -/
def IsLower (c : Char) : Prop :=
  c ≠ 'Σ' ∧ lowerChar c = [c]

theorem isLower_of_findLowerRun {c : Char} (hdot : c ≠ '\u0130')
    (h : findLowerRun c.toNat lowerRuns = none) : IsLower c := by
  constructor
  · rintro rfl
    exact absurd h (by decide)
  · rw [lowerChar, if_neg hdot, h]

theorem isLower_of_mem_lowerChar {c d : Char} (hc : c ∈ lowerChar d) (hd : d ≠ 'Σ') :
    IsLower c := by
  unfold lowerChar at hc
  split at hc
  · rcases List.mem_cons.mp hc with rfl | hc
    · exact ⟨by decide, by decide⟩
    · obtain rfl := List.mem_singleton.mp hc
      exact ⟨by decide, by decide⟩
  · rename_i hdot
    split at hc
    · rename_i hnone
      obtain rfl := List.mem_singleton.mp hc
      exact isLower_of_findLowerRun hdot hnone
    · rename_i run hrun
      obtain ⟨hmem, hfirst, hlast, hstep⟩ := mem_of_findLowerRun hrun
      obtain ⟨hnonneg, hdotless, hpasses⟩ := lowerRuns_settle run hmem
      obtain rfl := List.mem_singleton.mp hc
      generalize hcode : ((d.toNat : Int) + run.shift).toNat = code
      have hnone : findLowerRun code lowerRuns = none :=
        findLowerRun_of_passes (by omega) (by omega) (by rw [← hstep]; congr 1; omega) hpasses
      rcases toNat_ofNat_cases code with hvalid | hzero
      · refine isLower_of_findLowerRun ?_ (by rw [hvalid]; exact hnone)
        intro heq
        rw [heq] at hvalid
        have : code = 0x130 := hvalid.symm
        omega
      · refine isLower_of_findLowerRun ?_ (by rw [hzero]; decide)
        intro heq
        rw [heq] at hzero
        exact absurd hzero (by decide)

theorem isLower_lowerSigma (before after : List Char) : IsLower (lowerSigma before after) := by
  unfold lowerSigma
  split
  · exact ⟨by decide, by decide⟩
  · exact ⟨by decide, by decide⟩

theorem isLower_of_mem_lowerFrom {c : Char} :
    ∀ {before text : List Char}, c ∈ lowerFrom before text → IsLower c
  | before, d :: after, h => by
      rw [lowerFrom] at h
      rcases List.mem_append.mp h with hc | hc
      · split at hc
        · obtain rfl := List.mem_singleton.mp hc
          exact isLower_lowerSigma before after
        · rename_i hd
          exact isLower_of_mem_lowerChar hc hd
      · exact isLower_of_mem_lowerFrom hc

/-! ## Texts in lower case -/

theorem lowerFrom_of_isLower :
    ∀ {before text : List Char}, (∀ c ∈ text, IsLower c) → lowerFrom before text = text
  | _, [], _ => rfl
  | before, c :: after, h => by
      obtain ⟨⟨hsigma, hc⟩, hafter⟩ := List.forall_mem_cons.mp h
      rw [lowerFrom, if_neg hsigma, hc, lowerFrom_of_isLower hafter, List.singleton_append]

/-- Lower case text is in lower case already. -/
theorem lowercase_lowercase (s : String) : lowercase (lowercase s) = lowercase s := by
  rw [lowercase, lowercase, String.toList_ofList,
    lowerFrom_of_isLower fun _ => isLower_of_mem_lowerFrom]

end RecordQuery.Text
