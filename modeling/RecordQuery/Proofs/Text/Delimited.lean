import RecordQuery.Text.Quoted

/-!
# Texts that can be told from what follows them

A long text is made of shorter ones put one after another. It can be
taken apart again if each part can be told from what follows it: two
parts that begin the same text show the same, and the same follows them
(`Unambiguous`). Three kinds of parts can: characters of one kind up to
one that is not, a text in quotes, and parts in a row with a separator
between them, up to what does not begin with the separator.
-/

namespace RecordQuery.Text

/-! ## Characters of one kind -/

/-- What follows begins with no character of the kind. -/
def Stops (kind : Char → Bool) (rest : List Char) : Prop :=
  (rest.head?.all fun c => !kind c) = true

theorem Stops.takeWhile_eq_nil {kind : Char → Bool} {rest : List Char} (h : Stops kind rest) :
    rest.takeWhile kind = [] := by
  cases rest with
  | nil => rfl
  | cons c rest => exact List.takeWhile_cons_of_neg (by simpa [Stops] using h)

/-- Characters of one kind end where the first of another kind stands. -/
theorem append_inj_of_stops {kind : Char → Bool} {x y r s : List Char}
    (hx : x.all kind) (hy : y.all kind) (hr : Stops kind r) (hs : Stops kind s)
    (h : x ++ r = y ++ s) : x = y ∧ r = s := by
  have hxy : x = y := by
    have hwhile := congrArg (List.takeWhile kind) h
    rw [List.takeWhile_append_of_pos (List.all_eq_true.mp hx),
      List.takeWhile_append_of_pos (List.all_eq_true.mp hy), hr.takeWhile_eq_nil,
      hs.takeWhile_eq_nil] at hwhile
    simpa using hwhile
  exact ⟨hxy, List.append_cancel_left (hxy ▸ h)⟩

/-! ## Quoted texts -/

/-- A character stands for itself, unless it is a quote or a backslash, or it is marked by a
backslash. -/
theorem escapeChar_cases (c : Char) :
    (∃ mark, escapeChar c = ['\\', mark] ∧ c = if mark = 'n' then '\n' else mark)
      ∨ (escapeChar c = [c] ∧ c ≠ '\'' ∧ c ≠ '\\') := by
  unfold escapeChar
  split
  · rename_i h
    exact Or.inl ⟨'\'', rfl, h⟩
  · split
    · rename_i h
      exact Or.inl ⟨'\\', rfl, h⟩
    · split
      · rename_i h
        exact Or.inl ⟨'n', rfl, h⟩
      · rename_i hquote hslash _
        exact Or.inr ⟨rfl, hquote, hslash⟩

/-- What stands for a character does not begin with a quote. -/
theorem escapeChar_append_ne (c : Char) (r s : List Char) : escapeChar c ++ r ≠ '\'' :: s := by
  rcases escapeChar_cases c with ⟨mark, hc, -⟩ | ⟨hc, hquote, -⟩
  · simp [hc]
  · simp [hc, hquote]

/-- What stands for a character is not the beginning of what stands for another. -/
theorem escapeChar_append_inj {c d : Char} {r s : List Char}
    (h : escapeChar c ++ r = escapeChar d ++ s) : c = d ∧ r = s := by
  rcases escapeChar_cases c with ⟨mark, hc, hmark⟩ | ⟨hc, -, hslash⟩ <;>
    rcases escapeChar_cases d with ⟨mark', hd, hmark'⟩ | ⟨hd, -, hslash'⟩ <;>
    rw [hc, hd] at h
  · obtain ⟨rfl, hrs⟩ : mark = mark' ∧ r = s := by simpa using h
    exact ⟨hmark.trans hmark'.symm, hrs⟩
  · exact absurd (List.cons.inj h).1.symm hslash'
  · exact absurd (List.cons.inj h).1 hslash
  · exact List.cons.inj h

/-- An escaped text ends at the first quote. -/
theorem escape_append_inj :
    ∀ {x y r s : List Char}, escape x ++ '\'' :: r = escape y ++ '\'' :: s → x = y ∧ r = s
  | [], [], _, _, h => ⟨rfl, (List.cons.inj h).2⟩
  | [], d :: y, r, s, h => by
      rw [escape, escape, List.flatMap_cons, List.append_assoc] at h
      exact absurd h.symm (escapeChar_append_ne d _ _)
  | c :: x, [], r, s, h => by
      rw [escape, escape, List.flatMap_cons, List.append_assoc] at h
      exact absurd h (escapeChar_append_ne c _ _)
  | c :: x, d :: y, r, s, h => by
      rw [escape, escape, List.flatMap_cons, List.flatMap_cons, List.append_assoc,
        List.append_assoc] at h
      obtain ⟨rfl, hrest⟩ := escapeChar_append_inj h
      obtain ⟨rfl, hrs⟩ := escape_append_inj hrest
      exact ⟨rfl, hrs⟩

theorem toList_quote (s : String) : (quote s).toList = '\'' :: (escape s.toList ++ ['\'']) := by
  simp [quote]

/-! ## Parts of a text -/

variable {α β : Type}

/-- Where the texts of `a` and `b` begin one text, each with what `ends` admits behind it, both
show the same and the same is behind them. -/
def Unambiguous (chars : α → List Char) (shown : α → β) (ends : List Char → Prop) (a b : α) :
    Prop :=
  ∀ ⦃r s : List Char⦄, ends r → ends s → chars a ++ r = chars b ++ s → shown a = shown b ∧ r = s

/-- Characters of one kind are told from another that follows them. -/
theorem unambiguous_of_stops {chars : α → List Char} {shown : α → β} {kind : Char → Bool} {a b : α}
    (ha : (chars a).all kind) (hb : (chars b).all kind)
    (hshown : chars a = chars b → shown a = shown b) :
    Unambiguous chars shown (Stops kind) a b := by
  intro r s hr hs h
  obtain ⟨hchars, hrest⟩ := append_inj_of_stops ha hb hr hs h
  exact ⟨hshown hchars, hrest⟩

/-- A quoted text is told from all that may follow it. -/
theorem unambiguous_quote (s t : String) :
    Unambiguous (fun u => (quote u).toList) id (fun _ => True) s t := by
  intro rest rest' _ _ h
  simp only [toList_quote, List.cons_append, List.append_assoc, List.nil_append,
    List.cons.injEq, true_and] at h
  obtain ⟨hst, hrest⟩ := escape_append_inj h
  exact ⟨String.toList_injective hst, hrest⟩

/-- A row begins with its first part. -/
theorem exists_intercalate_cons (sep x : List Char) (xs : List (List Char)) :
    ∃ tail, sep.intercalate (x :: xs) = x ++ tail := by
  cases xs with
  | nil => exact ⟨[], by simp⟩
  | cons y ys => exact ⟨_, by rw [List.intercalate_cons_cons, List.append_assoc]⟩

/-- A row of parts is told from what does not begin with the separator, if each part is told from
the separator. -/
theorem intercalate_append_inj {sep : List Char} {chars : α → List Char} {shown : α → β}
    {ends : List Char → Prop} (hsep : ∀ rest, ends (sep ++ rest)) {r s : List Char}
    (hr : ends r) (hs : ends s) (hr' : ¬ sep <+: r) (hs' : ¬ sep <+: s) :
    ∀ {xs ys : List α}, (∀ x ∈ xs, ∀ y ∈ ys, Unambiguous chars shown ends x y) →
      xs ≠ [] → ys ≠ [] →
      sep.intercalate (xs.map chars) ++ r = sep.intercalate (ys.map chars) ++ s →
      xs.map shown = ys.map shown ∧ r = s
  | [x], [y], hparts, _, _, h => by
      simp only [List.map_cons, List.map_nil, List.intercalate_singleton] at h
      obtain ⟨hxy, hrs⟩ := hparts x (by simp) y (by simp) hr hs h
      exact ⟨by simp [hxy], hrs⟩
  | [x], y :: y' :: ys, hparts, _, _, h => by
      simp only [List.map_cons, List.map_nil, List.intercalate_singleton,
        List.intercalate_cons_cons, List.append_assoc] at h
      obtain ⟨-, hrest⟩ := hparts x (by simp) y (by simp) hr (hsep _) h
      exact absurd ⟨_, hrest.symm⟩ hr'
  | x :: x' :: xs, [y], hparts, _, _, h => by
      simp only [List.map_cons, List.map_nil, List.intercalate_singleton,
        List.intercalate_cons_cons, List.append_assoc] at h
      obtain ⟨-, hrest⟩ := hparts x (by simp) y (by simp) (hsep _) hs h
      exact absurd ⟨_, hrest⟩ hs'
  | x :: x' :: xs, y :: y' :: ys, hparts, _, _, h => by
      simp only [List.map_cons, List.intercalate_cons_cons, List.append_assoc] at h
      obtain ⟨hxy, hrest⟩ := hparts x (by simp) y (by simp) (hsep _) (hsep _) h
      have hmore : ∀ a ∈ x' :: xs, ∀ b ∈ y' :: ys, Unambiguous chars shown ends a b :=
        fun a ha b hb => hparts a (List.mem_cons_of_mem _ ha) b (List.mem_cons_of_mem _ hb)
      obtain ⟨hshown, hrs⟩ := intercalate_append_inj hsep hr hs hr' hs' hmore (by simp) (by simp)
        (List.append_cancel_left hrest)
      exact ⟨List.cons_eq_cons.mpr ⟨hxy, hshown⟩, hrs⟩

end RecordQuery.Text
