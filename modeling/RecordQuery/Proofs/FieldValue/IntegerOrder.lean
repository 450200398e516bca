import RecordQuery.Clause.Matching
import RecordQuery.Proofs.Arrangement.StableSort
import RecordQuery.Proofs.Binary64.Integers
import RecordQuery.Proofs.Number.Integers
import RecordQuery.Proofs.Query.AcceptedPaths

/-!
# Comparison of integers

Two integers are compared by the binary64 numbers nearest to them, whether
they are held with a sign or without. So all comparisons are those of the
integers, unless the two are different and have the same nearest number;
then every comparison takes them for equal, but none turns their order
round. It takes integers from 2^53 on in magnitude for that.
-/

namespace RecordQuery.FieldValue

section

variable {a b : Number} {m n : Int}

theorem strictEq_integers (ha : a.integer? = some m) (hb : b.integer? = some n) :
    (number a).strictEq (number b) = decide (Binary64.ofInt m = Binary64.ofInt n) := by
  rw [strictEq, Number.toBinary64_of_integer ha, Number.toBinary64_of_integer hb,
    Binary64.eq_ofInt]

theorem looseEq_integers (ha : a.integer? = some m) (hb : b.integer? = some n) :
    (number a).looseEq (number b) = decide (Binary64.ofInt m = Binary64.ofInt n) := by
  have hloose : (number a).looseEq (number b) = a.toBinary64.eq b.toBinary64 := rfl
  rw [hloose, Number.toBinary64_of_integer ha, Number.toBinary64_of_integer hb,
    Binary64.eq_ofInt]

theorem compareRelational?_integers (ha : a.integer? = some m) (hb : b.integer? = some n) :
    (number a).compareRelational? (number b)
      = some (if Binary64.ofInt m = Binary64.ofInt n then .eq else compare m n) := by
  have hcompare : (number a).compareRelational? (number b)
      = a.toBinary64.compare? b.toBinary64 := rfl
  rw [hcompare, Number.toBinary64_of_integer ha, Number.toBinary64_of_integer hb,
    Binary64.compare?_ofInt]

theorem compareForSort_integers (ha : a.integer? = some m) (hb : b.integer? = some n) :
    compareForSort (number a) (number b)
      = if Binary64.ofInt m = Binary64.ofInt n then .eq else compare m n := by
  rw [compareForSort, Number.toBinary64_of_integer ha, Number.toBinary64_of_integer hb,
    compareNumbers, Binary64.key?_ofInt, Binary64.key?_ofInt, ← Binary64.compare_integerKey]

end

/-- Sorting by a field that holds integers leaves them in ascending order, but for those that have
the same nearest number. -/
theorem pairwise_sortRecords_of_integers {key : FieldPath} {records : List Json}
    {value : Json → Int}
    (h : ∀ record ∈ records, ∃ a,
      key.resolve record = number a ∧ a.integer? = some (value record)) :
    (sortRecords [key] records).Pairwise fun r s =>
      value r ≤ value s ∨ Binary64.ofInt (value r) = Binary64.ofInt (value s) := by
  have hsorted := isStableSort_sortRecords [key] records
  refine hsorted.ascending.imp_of_mem fun {r s} hr hs hascending => ?_
  obtain ⟨a, hra, ha⟩ := h r (hsorted.perm.mem_iff.mp hr)
  obtain ⟨b, hsb, hb⟩ := h s (hsorted.perm.mem_iff.mp hs)
  rw [not_precedes_iff, compareByKeys, compareByKeys, Ordering.then_eq, hra, hsb,
    compareForSort_integers ha hb] at hascending
  split at hascending
  · rename_i hsame
    exact Or.inr hsame
  · rw [Ne, Int.compare_eq_gt] at hascending
    exact Or.inl (not_lt.mp hascending)

/-- The clause for an operator and an integer says of an integer what strict equality does. -/
theorem matchesRecord_strictEq_integers {options : Options} {text : String} {b : Number}
    {c : Clause} (hclause : (Test.compareBy text "===" (.number b)).clause options = .ok c)
    {record : Json} {a : Number} (hfield : (⟨text⟩ : FieldPath).resolve record = number a)
    {m n : Int} (ha : a.integer? = some m) (hb : b.integer? = some n) :
    c.matchesRecord record = decide (Binary64.ofInt m = Binary64.ofInt n) := by
  obtain ⟨-, rfl⟩ := Test.clause_strictEq hclause
  have hmatches : (Clause.compare ⟨text⟩ .strictEq (.number b)).matchesRecord record
      = ((⟨text⟩ : FieldPath).resolve record).strictEq (number b) := rfl
  rw [hmatches, hfield, strictEq_integers ha hb]

/-- **Integers are compared by their nearest numbers.** Of two integers, each held with a sign or
without, strict and loose equality say whether they have the same nearest binary64
number, and both orders are that of the integers, unless they have the same one:
then they are equal in both. Two different integers have the same one only if
neither is below 2^53 in magnitude and one is above. So a sort by a field of integers
is ascending up to such pairs, and the operator `===` with an integer holds of no other
integer but one that makes such a pair with it. -/
theorem integers_compare_by_nearest :
    (∀ (a b : Number) (m n : Int), a.integer? = some m → b.integer? = some n →
      ((number a).strictEq (number b) = true ↔ Binary64.ofInt m = Binary64.ofInt n)
      ∧ ((number a).looseEq (number b) = true ↔ Binary64.ofInt m = Binary64.ofInt n)
      ∧ (number a).compareRelational? (number b)
        = some (if Binary64.ofInt m = Binary64.ofInt n then .eq else compare m n)
      ∧ compareForSort (number a) (number b)
        = if Binary64.ofInt m = Binary64.ofInt n then .eq else compare m n)
    ∧ (∀ n : Int, ∃ rank, Binary64.ofInt n = Binary64.ofRank (decide (n < 0)) rank
      ∧ Binary64.IsNearest n.natAbs rank)
    ∧ (∀ m n : Int, m ≠ n → Binary64.ofInt m = Binary64.ofInt n →
      2 ^ 53 ≤ m.natAbs ∧ 2 ^ 53 ≤ n.natAbs ∧ (2 ^ 53 < m.natAbs ∨ 2 ^ 53 < n.natAbs))
    ∧ (∀ (key : FieldPath) (records : List Json) (value : Json → Int),
      (∀ record ∈ records, ∃ a, key.resolve record = number a ∧ a.integer? = some (value record)) →
      (sortRecords [key] records).Pairwise fun r s =>
        value r ≤ value s ∨ Binary64.ofInt (value r) = Binary64.ofInt (value s))
    ∧ ∀ (options : Options) (text : String) (b : Number) (n : Int) (c : Clause),
      b.integer? = some n →
      (Test.compareBy text "===" (.number b)).clause options = .ok c →
      ∀ (record : Json) (a : Number) (m : Int),
        (⟨text⟩ : FieldPath).resolve record = number a → a.integer? = some m →
        (c.matchesRecord record = true ↔ Binary64.ofInt m = Binary64.ofInt n) := by
  refine ⟨fun a b m n ha hb => ⟨?_, ?_, ?_, ?_⟩, Binary64.exists_isNearest_ofInt,
    fun _ _ => Binary64.le_natAbs_of_ofInt_eq, fun _ _ _ => pairwise_sortRecords_of_integers, ?_⟩
  · rw [strictEq_integers ha hb, decide_eq_true_eq]
  · rw [looseEq_integers ha hb, decide_eq_true_eq]
  · exact compareRelational?_integers ha hb
  · exact compareForSort_integers ha hb
  · intro options text b n c hb hclause record a m hfield ha
    rw [matchesRecord_strictEq_integers hclause hfield ha hb, decide_eq_true_eq]

/-- The greatest integer without a sign and the least with one, a sort of integers beyond 2^53
that have nearest numbers of their own, and an operator that tells two such integers apart. -/
theorem integers_compare_by_nearest_beyond :
    let least : Number := .signed (-9223372036854775808)
    let greatest : Number := .unsigned 18446744073709551615
    let record (n : Int) (fits : -2 ^ 63 ≤ n ∧ n < 2 ^ 64) : Json := .object [("id", .ofInt n fits)]
    let low := record 9007199254740994 (by decide)
    let high := record 9007199254740996 (by decide)
    let c : Clause := .compare ⟨"id"⟩ .strictEq (.number (.unsigned 9007199254740996))
    compareForSort (number least) (number greatest) = .lt
      ∧ (sortRecords [⟨"id"⟩] [high, low]).Pairwise (fun r s =>
        (if r = low then 9007199254740994 else 9007199254740996 : Int)
          ≤ (if s = low then 9007199254740994 else 9007199254740996))
      ∧ c.matchesRecord high = true ∧ c.matchesRecord low = false := by
  intro least greatest record low high c
  obtain ⟨hcompare, -, -, hsort, hoperator⟩ := integers_compare_by_nearest
  have hids : Binary64.ofInt 9007199254740994 ≠ Binary64.ofInt 9007199254740996 := by
    decide +kernel
  have hleast : Binary64.ofInt (-9223372036854775808) ≠ Binary64.ofInt 18446744073709551615 := by
    decide +kernel
  have hlow : (⟨"id"⟩ : FieldPath).resolve low = number (.signed 9007199254740994) := by
    decide +kernel
  have hhigh : (⟨"id"⟩ : FieldPath).resolve high = number (.signed 9007199254740996) := by
    decide +kernel
  have hclause : (Test.compareBy "id" "===" (.number (.unsigned 9007199254740996))).clause {}
      = .ok c := rfl
  refine ⟨?_, ?_, ?_, ?_⟩
  · rw [(hcompare least greatest _ _ rfl rfl).2.2.2]
    exact if_neg hleast
  · let value (r : Json) : Int := if r = low then 9007199254740994 else 9007199254740996
    have hfields : ∀ r ∈ [high, low], ∃ a, (⟨"id"⟩ : FieldPath).resolve r = number a
        ∧ a.integer? = some (value r) := by
      intro r hr
      rcases List.mem_cons.mp hr with rfl | hr
      · exact ⟨_, hhigh, by decide +kernel⟩
      · obtain rfl := List.mem_singleton.mp hr
        exact ⟨_, hlow, by decide +kernel⟩
    refine (hsort ⟨"id"⟩ [high, low] value hfields).imp fun {r s} h => h.elim id fun hsame => ?_
    have hvalue : ∀ t, value t = 9007199254740994 ∨ value t = 9007199254740996 := by
      intro t
      by_cases ht : t = low
      · exact Or.inl (if_pos ht)
      · exact Or.inr (if_neg ht)
    change value r ≤ value s
    rcases hvalue r with hr | hr <;> rcases hvalue s with hs | hs <;> rw [hr, hs] at hsame ⊢
    · decide
    · exact absurd hsame.symm hids
  · exact (hoperator {} "id" _ _ c rfl hclause high _ _ hhigh rfl).mpr rfl
  · rw [← Bool.not_eq_true]
    exact fun h => hids ((hoperator {} "id" _ _ c rfl hclause low _ _ hlow rfl).mp h)

/-- The integers 2^53 and 2^53 + 1 have the same nearest number: no comparison tells them apart,
sorting leaves them in descending order, and the operator `===` with the one matches a record with
the other. -/
theorem strictEq_of_neighbouring_integers :
    let low : Number := .signed 9007199254740992
    let high : Number := .unsigned 9007199254740993
    let first : Json := .object [("id", .ofInt 9007199254740993 (by decide))]
    let second : Json := .object [("id", .ofInt 9007199254740992 (by decide))]
    low.integer? = some 9007199254740992 ∧ high.integer? = some 9007199254740993
      ∧ (number low).strictEq (number high) = true ∧ (number low).looseEq (number high) = true
      ∧ (number low).compareRelational? (number high) = some .eq
      ∧ compareForSort (number low) (number high) = .eq
      ∧ sortRecords [⟨"id"⟩] [first, second] = [first, second]
      ∧ (Clause.compare ⟨"id"⟩ .strictEq (.number high)).matchesRecord second = true := by
  intro low high first second
  refine ⟨rfl, rfl, by decide +kernel, by decide +kernel, by decide +kernel, by decide +kernel,
    ?_, by decide +kernel⟩
  refine sortRecords_of_ascending (List.pairwise_pair.mpr ?_)
  rw [not_precedes_iff]
  decide +kernel

end RecordQuery.FieldValue
