import Mathlib.Data.List.Infix
import RecordQuery.Text.Lowercase

/-!
# Lower case of a part of a text

A part of a text in lower case (`lowerWithin`) is the part made lower case
by itself, but for its capital sigmas: those that look beyond its ends may
have another small form there (`lowerWithin_eq_lowerFrom_iff`). Which
sigmas do not look beyond the ends, whatever stands there, can be told from
the part alone (`settles_iff`).
-/

namespace RecordQuery.Text

/-- The lower case form of a part of a text, given what comes before it, nearest first, and what
comes after it. -/
def lowerWithin (before : List Char) : List Char → List Char → List Char
  | [], _ => []
  | c :: rest, after =>
    (if c = 'Σ' then [lowerSigma before (rest ++ after)] else lowerChar c)
      ++ lowerWithin (c :: before) rest after

theorem lowerFrom_append : ∀ (before part after : List Char),
    lowerFrom before (part ++ after)
      = lowerWithin before part after ++ lowerFrom (part.reverse ++ before) after
  | _, [], _ => rfl
  | before, c :: rest, after => by
      rw [List.cons_append, lowerFrom, lowerWithin, lowerFrom_append (c :: before) rest after,
        List.reverse_cons, List.append_assoc, List.append_assoc, List.singleton_append]

theorem lowerWithin_nil (before part : List Char) :
    lowerWithin before part [] = lowerFrom before part := by
  have happend := lowerFrom_append before part []
  rw [List.append_nil, lowerFrom, List.append_nil] at happend
  exact happend.symm

/-- The lower case form of a part is a part of the lower case form of the text. -/
theorem lowerWithin_infix (before part after : List Char) :
    lowerWithin before.reverse part after <:+: lowerFrom [] (before ++ (part ++ after)) := by
  rw [lowerFrom_append, lowerFrom_append, List.append_nil]
  exact ⟨_, _, List.append_assoc _ _ _⟩

theorem length_lowerWithin (part : List Char) : ∀ before before' after after' : List Char,
    (lowerWithin before part after).length = (lowerWithin before' part after').length := by
  induction part with
  | nil => exact fun _ _ _ _ => rfl
  | cons c rest ih =>
      intro before before' after after'
      rw [lowerWithin, lowerWithin, List.length_append, List.length_append,
        ih (c :: before) (c :: before') after after']
      split <;> rfl

/-! ## The sigmas of a part -/

/-- A character of a list is the first of it or one of the others. -/
theorem forall_split_cons {α : Type} {P : List α → List α → Prop} {c d : α} {rest : List α} :
    (∀ x y, c :: rest = x ++ d :: y → P x y)
      ↔ (c = d → P [] rest) ∧ ∀ x y, rest = x ++ d :: y → P (c :: x) y := by
  constructor
  · intro h
    exact ⟨fun hc => h [] rest (hc ▸ rfl), fun x y hrest => h (c :: x) y (hrest ▸ rfl)⟩
  · rintro ⟨hfirst, hrest⟩ x y hsplit
    cases x with
    | nil =>
        obtain ⟨hc, rfl⟩ := List.cons.inj hsplit
        exact hfirst hc
    | cons first x =>
        obtain ⟨rfl, htail⟩ := List.cons.inj hsplit
        exact hrest x y htail

/-- What holds of all places of a character can be decided. -/
instance decidableForallSplit {α : Type} [DecidableEq α] (d : α) : (part : List α) →
    (P : List α → List α → Prop) → [∀ x y, Decidable (P x y)] →
    Decidable (∀ x y, part = x ++ d :: y → P x y)
  | [], _, _ => isTrue fun x _ hsplit => by cases x <;> cases hsplit
  | c :: rest, P, _ =>
    have := decidableForallSplit d rest fun x y => P (c :: x) y
    decidable_of_iff _ forall_split_cons.symm

/-- Two forms of a part are the same if all its sigmas have the same form in both. -/
theorem lowerWithin_eq_iff {part : List Char} : ∀ (before before' after after' : List Char),
    lowerWithin before part after = lowerWithin before' part after'
      ↔ ∀ x y, part = x ++ 'Σ' :: y →
        lowerSigma (x.reverse ++ before) (y ++ after)
          = lowerSigma (x.reverse ++ before') (y ++ after') := by
  induction part with
  | nil => simp [lowerWithin]
  | cons c rest ih =>
      intro before before' after after'
      have hrest := ih (c :: before) (c :: before') after after'
      rw [lowerWithin, lowerWithin, forall_split_cons]
      simp only [List.reverse_cons, List.append_assoc, List.singleton_append, List.reverse_nil,
        List.nil_append]
      rw [← hrest]
      by_cases hc : c = 'Σ'
      · simp [hc]
      · simp [hc]

/-- No sigma of the part has another small form between the texts than it has in the part by
itself. -/
def KeepsSigmas (before part after : List Char) : Prop :=
  ∀ x y, part = x ++ 'Σ' :: y →
    lowerSigma (x.reverse ++ before.reverse) (y ++ after) = lowerSigma x.reverse y

instance (before part after : List Char) : Decidable (KeepsSigmas before part after) :=
  inferInstanceAs (Decidable (∀ x y, part = x ++ 'Σ' :: y → _))

theorem lowerWithin_eq_lowerFrom_iff {before part after : List Char} :
    lowerWithin before.reverse part after = lowerFrom [] part ↔ KeepsSigmas before part after := by
  rw [← lowerWithin_nil, lowerWithin_eq_iff]
  simp only [List.append_nil, KeepsSigmas]

/-! ## Sigmas that do not look beyond the ends -/

/-- The form of a sigma is settled by what stands before it in the part, nearest first, and after
it: a letter comes after it, or a character before it that is not passed over is no letter, or there
are characters on both sides that are not passed over. -/
def settles (before after : List Char) : Bool :=
  meetsLetter after
    || (!before.all isCaseIgnorable && (!meetsLetter before || !after.all isCaseIgnorable))

theorem meetsLetter_append_of_all {cs : List Char} (h : cs.all isCaseIgnorable = true)
    (more : List Char) : meetsLetter (cs ++ more) = meetsLetter more := by
  rw [meetsLetter, List.dropWhile_append_of_pos (List.all_eq_true.mp h)]
  rfl

theorem meetsLetter_append_of_not_all {cs : List Char} (h : cs.all isCaseIgnorable = false)
    (more : List Char) : meetsLetter (cs ++ more) = meetsLetter cs := by
  induction cs with
  | nil => cases h
  | cons c cs ih =>
      rw [List.all_cons] at h
      by_cases hc : isCaseIgnorable c = true
      · rw [hc, Bool.true_and] at h
        have hrest := ih h
        simp only [meetsLetter, List.cons_append, List.dropWhile_cons_of_pos hc] at hrest ⊢
        exact hrest
      · simp only [meetsLetter, List.cons_append, List.dropWhile_cons_of_neg hc]

theorem all_eq_false_of_meetsLetter {cs : List Char} (h : meetsLetter cs = true) :
    cs.all isCaseIgnorable = false := by
  by_contra hall
  rw [Bool.not_eq_false] at hall
  have hnone := meetsLetter_append_of_all hall []
  rw [List.append_nil, h] at hnone
  cases hnone

theorem lowerSigma_of_meetsLetter_after {after : List Char} (h : meetsLetter after = true)
    (before : List Char) : lowerSigma before after = 'σ' := by
  rw [lowerSigma, h, Bool.not_true, Bool.and_false, if_neg Bool.false_ne_true]

theorem lowerSigma_of_not_meetsLetter {before : List Char} (h : meetsLetter before = false)
    (after : List Char) : lowerSigma before after = 'σ' := by
  rw [lowerSigma, h, Bool.false_and, if_neg Bool.false_ne_true]

/-- What is settled stays so, whatever stands beyond the ends. -/
theorem lowerSigma_append_of_settles {before after : List Char}
    (h : settles before after = true) (more more' : List Char) :
    lowerSigma (before ++ more) (after ++ more') = lowerSigma before after := by
  rw [settles, Bool.or_eq_true, Bool.and_eq_true, Bool.or_eq_true, Bool.not_eq_true',
    Bool.not_eq_true', Bool.not_eq_true'] at h
  rcases h with hafter | ⟨hbefore, hnone | hafter⟩
  · have hmeets := meetsLetter_append_of_not_all (all_eq_false_of_meetsLetter hafter) more'
    rw [lowerSigma_of_meetsLetter_after (hmeets.trans hafter),
      lowerSigma_of_meetsLetter_after hafter]
  · have hmeets := meetsLetter_append_of_not_all hbefore more
    rw [lowerSigma_of_not_meetsLetter (hmeets.trans hnone), lowerSigma_of_not_meetsLetter hnone]
  · rw [lowerSigma, lowerSigma, meetsLetter_append_of_not_all hbefore,
      meetsLetter_append_of_not_all hafter]

/-- What is not settled has another form behind a letter, or before one. -/
theorem lowerSigma_append_letter_ne {before after : List Char} {first last : Char}
    (hfirst : meetsLetter [first] = true) (hlast : meetsLetter [last] = true)
    (h : settles before after = false) :
    lowerSigma (before ++ [first]) after ≠ lowerSigma before after
      ∨ lowerSigma before (after ++ [last]) ≠ lowerSigma before after := by
  rw [settles, Bool.or_eq_false_iff] at h
  obtain ⟨hnone, hrest⟩ := h
  cases hall : before.all isCaseIgnorable with
  | true =>
      have hbefore : meetsLetter before = false := by
        rw [← Bool.not_eq_true]
        intro hmeets
        rw [all_eq_false_of_meetsLetter hmeets] at hall
        cases hall
      have hmeets : meetsLetter (before ++ [first]) = true :=
        (meetsLetter_append_of_all hall _).trans hfirst
      refine Or.inl ?_
      rw [lowerSigma_of_not_meetsLetter hbefore, lowerSigma, hmeets, hnone]
      decide
  | false =>
      rw [hall, Bool.not_false, Bool.true_and, Bool.or_eq_false_iff, Bool.not_eq_false',
        Bool.not_eq_false'] at hrest
      obtain ⟨hbefore, hafter⟩ := hrest
      have hmeets : meetsLetter (after ++ [last]) = true :=
        (meetsLetter_append_of_all hafter _).trans hlast
      refine Or.inr ?_
      rw [lowerSigma_of_meetsLetter_after hmeets, lowerSigma, hbefore, hnone]
      decide

/-- Each sigma of the part has a form that is settled within the part. -/
def SettlesSigmas (part : List Char) : Prop :=
  ∀ x y, part = x ++ 'Σ' :: y → settles x.reverse y = true

instance (part : List Char) : Decidable (SettlesSigmas part) :=
  inferInstanceAs (Decidable (∀ x y, part = x ++ 'Σ' :: y → _))

theorem SettlesSigmas.keepsSigmas {part : List Char} (h : SettlesSigmas part)
    (before after : List Char) : KeepsSigmas before part after :=
  fun x y hpart => lowerSigma_append_of_settles (h x y hpart) before.reverse after

/-! ## A letter that tells the forms apart -/

theorem exists_letter_ne (c : Option Char) :
    ∃ letter, meetsLetter [letter] = true ∧ c ≠ some letter
      ∧ ∀ before text,
        lowerFrom before (letter :: text) = letter :: lowerFrom (letter :: before) text := by
  by_cases ha : c = some 'a'
  · exact ⟨'b', by decide +kernel, by simp [ha], fun _ _ => rfl⟩
  · exact ⟨'a', by decide +kernel, ha, fun _ _ => rfl⟩

/-- A text that is no longer than another and does not begin with a letter is not found from the
letter on before the other. -/
theorem eq_of_infix_cons {letter : Char} {part text : List Char} (h : part <:+: letter :: text)
    (hlength : text.length = part.length) (hhead : part.head? ≠ some letter) (hne : part ≠ []) :
    part = text := by
  rcases List.infix_cons_iff.mp h with hfirst | hrest
  · obtain ⟨c, rest, rfl⟩ := List.exists_cons_of_ne_nil hne
    obtain ⟨rfl, -⟩ := List.cons_prefix_cons.mp hfirst
    exact absurd rfl hhead
  · exact hrest.eq_of_length hlength.symm

theorem eq_of_infix_concat {letter : Char} {part text : List Char} (h : part <:+: text ++ [letter])
    (hlength : text.length = part.length) (hlast : part.getLast? ≠ some letter) (hne : part ≠ []) :
    part = text := by
  rcases List.infix_concat_iff.mp h with hend | hrest
  · rcases List.suffix_concat_iff.mp hend with hnil | ⟨rest, rfl, -⟩
    · exact absurd hnil hne
    · exact absurd List.getLast?_concat hlast
  · exact hrest.eq_of_length hlength.symm

/-- A part with a sigma that is not settled is lost in lower case next to some letter. -/
theorem exists_not_infix_of_not_settlesSigmas {part : List Char} (h : ¬ SettlesSigmas part) :
    ∃ before after, ¬ lowerFrom [] part <:+: lowerFrom [] (before ++ (part ++ after)) := by
  simp only [SettlesSigmas, not_forall, Bool.not_eq_true] at h
  obtain ⟨x, y, hpart, hsettles⟩ := h
  have hne : lowerFrom [] part ≠ [] := by
    rw [hpart, lowerFrom_append, lowerFrom, if_pos rfl]
    simp
  have hlength : ∀ before after,
      (lowerWithin before part after).length = (lowerFrom [] part).length := by
    intro before after
    rw [← lowerWithin_nil, length_lowerWithin part before [] after []]
  obtain ⟨first, hfirst, hhead, hfrom⟩ := exists_letter_ne (lowerFrom [] part).head?
  obtain ⟨last, hlast, hend, hto⟩ := exists_letter_ne (lowerFrom [] part).getLast?
  rcases lowerSigma_append_letter_ne hfirst hlast hsettles with hsigma | hsigma
  · refine ⟨[first], [], fun hinfix => hsigma ?_⟩
    rw [List.append_nil, List.singleton_append, hfrom, ← lowerWithin_nil [first]] at hinfix
    have heq := eq_of_infix_cons hinfix (hlength _ _) hhead hne
    rw [← lowerWithin_nil, lowerWithin_eq_iff] at heq
    have hsame := heq x y hpart
    rw [List.append_nil, List.append_nil] at hsame
    exact hsame.symm
  · refine ⟨[], [last], fun hinfix => hsigma ?_⟩
    rw [List.nil_append, lowerFrom_append, hto] at hinfix
    have heq := eq_of_infix_concat hinfix (hlength _ _) hend hne
    rw [← lowerWithin_nil, lowerWithin_eq_iff] at heq
    have hsame := heq x y hpart
    rw [List.append_nil, List.append_nil] at hsame
    exact hsame.symm

end RecordQuery.Text
