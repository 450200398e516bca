import RecordQuery.Proofs.Arrangement.Partition
import RecordQuery.Proofs.FieldValue.ComparisonRules
import RecordQuery.Proofs.Number.Integers
import RecordQuery.Proofs.Query.AcceptedPaths

/-!
# Texts of equal values

Strict equality and text agree on scalars, but for one case: a long
integer is compared by its nearest number and shown with all of its
digits, so what is equal to it may show another integer (`sharesDigits`).
Grouping and the test for candidates go by texts. So strictly equal keys
share their bucket and strictly equal literals are candidates
as far as that case does not arise.
-/

namespace RecordQuery

namespace Number

/-- If one of the numbers is a long integer, both show the same integer. -/
def sharesDigits (a b : Number) : Bool :=
  !(a.isLong || b.isLong) || a.shownInteger? == b.shownInteger?

theorem text_eq_iff_of_isLong {a b : Number} (hlong : a.isLong = true)
    (h : a.toBinary64.eq b.toBinary64 = true) :
    a.text = b.text ↔ a.shownInteger? = b.shownInteger? := by
  obtain ⟨m, hm, -⟩ := isLong_eq_true_iff.mp hlong
  rw [Binary64.eq_comm] at h
  obtain ⟨k, hk, htext⟩ := exists_text_of_isLong hlong h
  rw [shownInteger?_of_integer hm, hk, text_of_integer hm, htext, Decimal.integerText_inj,
    Option.some.injEq]

/-- Equal numbers have one text exactly if they share their digits. -/
theorem text_eq_iff_sharesDigits {a b : Number} (h : a.toBinary64.eq b.toBinary64 = true) :
    a.text = b.text ↔ a.sharesDigits b = true := by
  cases ha : a.isLong with
  | true => simp [sharesDigits, ha, text_eq_iff_of_isLong ha h]
  | false =>
      cases hb : b.isLong with
      | true =>
          rw [Binary64.eq_comm] at h
          rw [eq_comm, text_eq_iff_of_isLong hb h, eq_comm]
          simp [sharesDigits, ha, hb]
      | false =>
          rw [text_of_not_isLong ha, text_of_not_isLong hb]
          simp [sharesDigits, ha, hb, Binary64.text_eq_of_eq h]

end Number

namespace FieldValue

/-- If the values are numbers and one of them is a long integer, both show the same integer. -/
def sharesDigits : FieldValue → FieldValue → Bool
  | number a, number b => a.sharesDigits b
  | _, _ => true

theorem kind_eq_of_strictEq {x y : FieldValue} (h : x.strictEq y = true) : x.kind = y.kind := by
  cases x <;> cases y <;> first | rfl | cases h

theorem kind_toFieldValue_ne (v : Operand) : v.toFieldValue.kind ≠ .container := by
  cases v <;> simp [Operand.toFieldValue, kind]

theorem text_eq_iff_sharesDigits {x y : FieldValue} (hx : x.kind ≠ .container)
    (h : x.strictEq y = true) : x.text = y.text ↔ x.sharesDigits y = true := by
  cases x with
  | undefined | null => cases y <;> first | exact iff_of_true rfl rfl | cases h
  | bool a =>
      cases y with
      | bool b =>
          obtain rfl : a = b := beq_iff_eq.mp h
          exact iff_of_true rfl rfl
      | _ => cases h
  | number a =>
      cases y with
      | number b => exact Number.text_eq_iff_sharesDigits h
      | _ => cases h
  | string s =>
      cases y with
      | string t =>
          obtain rfl : s = t := beq_iff_eq.mp h
          exact iff_of_true rfl rfl
      | _ => cases h
  | array | object => exact absurd rfl hx

end FieldValue

/-! ## Buckets and candidates -/

theorem mem_recordsUnder {keys : List FieldPath} {names : List String} {records : List Json}
    (hlength : names.length = keys.length) {record : Json} :
    record ∈ recordsUnder keys names records
      ↔ record ∈ records ∧ keys.map (bucketName · record) = names := by
  rw [recordsUnder, List.mem_filter]
  refine and_congr_right fun _ => ?_
  induction keys generalizing names with
  | nil => simp [List.length_eq_zero_iff.mp hlength]
  | cons key keys ih =>
      cases names with
      | nil => cases hlength
      | cons name names => simp [ih (Nat.succ.inj hlength)]

/-- Records share their bucket exactly if they have one text under every key. -/
theorem exists_common_bucket_iff (keys : List FieldPath) {records : List Json} {r s : Json}
    (hr : r ∈ records) (hs : s ∈ records) :
    (∃ names members, names.length = keys.length
      ∧ (groupRecords keys records).follow? names = some (.records members)
      ∧ r ∈ members ∧ s ∈ members)
      ↔ ∀ key ∈ keys, bucketName key r = bucketName key s := by
  constructor
  · rintro ⟨names, members, hlength, hmembers, hrm, hsm⟩
    rw [follow?_groupRecords records hlength.le, hlength, List.drop_length, groupRecords,
      Option.ite_none_right_eq_some] at hmembers
    obtain rfl : recordsUnder keys names records = members := by
      simpa using hmembers.2
    rw [mem_recordsUnder hlength] at hrm hsm
    exact List.map_inj_left.mp (hrm.2.trans hsm.2.symm)
  · intro h
    have hlength : (keys.map (bucketName · r)).length = keys.length := List.length_map _
    have hrm := (mem_recordsUnder hlength).mpr ⟨hr, rfl⟩
    have hsm := (mem_recordsUnder hlength).mpr ⟨hs, List.map_inj_left.mpr fun key hkey =>
      (h key hkey).symm⟩
    refine ⟨_, _, hlength, ?_, hrm, hsm⟩
    rw [follow?_groupRecords records hlength.le, hlength, List.drop_length, groupRecords,
      if_pos (Or.inr (List.ne_nil_of_mem hrm))]

/-- A literal that a field strictly equals is found among the candidates, if the field counts as
true and the two share their digits. -/
theorem Clause.matchesRecord_ofCandidates {field : FieldPath} {v : Operand} {vs : List Operand}
    {record : Json} (hmem : v ∈ vs) (htruthy : (field.resolve record).isTruthy = true)
    (hequal : (field.resolve record).strictEq v.toFieldValue = true)
    (hdigits : (field.resolve record).sharesDigits v.toFieldValue = true) :
    (ofCandidates field vs).matchesRecord record = true := by
  have hscalar : (field.resolve record).kind ≠ .container := by
    rw [FieldValue.kind_eq_of_strictEq hequal]
    exact FieldValue.kind_toFieldValue_ne v
  have htext := (FieldValue.text_eq_iff_sharesDigits hscalar hequal).mpr hdigits
  have hmatches : (ofCandidates field vs).matchesRecord record
      = ((field.resolve record).isTruthy
        && (vs.map Operand.text).contains (field.resolve record).text) := rfl
  rw [hmatches, htruthy, htext, Bool.true_and, List.contains_iff_mem]
  exact List.mem_map_of_mem hmem

/-- The test for candidates is accepted wherever the operator `===` is. -/
theorem clause_oneOf_of_strictEq {options : Options} {path : String} {v : Operand} {c : Clause}
    (vs : List Operand) (h : (Test.compareBy path "===" v).clause options = .ok c) :
    (Test.oneOf path vs).clause options = .ok (.ofCandidates ⟨path⟩ vs) := by
  have hclause : (Test.oneOf path vs).clause options
      = options.accept path >>= fun field => .ok (.ofCandidates field vs) := rfl
  rw [hclause, (Test.clause_strictEq h).1]
  rfl

namespace FieldValue

/-- **Strict equality and text agree but for long integers.** Two scalars that are
strictly equal have one text, unless they are numbers of which one is held as an integer
beyond 2^53 in magnitude; then they do exactly if the other one is held as the same
integer, or is a float whose shortest decimal is that integer. So two records whose
keys find strictly equal scalars share their bucket exactly if all of these share
their digits. A field that counts as true and of which `===` holds has the literal among the
candidates, if field and literal share their digits. -/
theorem strictEq_shows_in_text :
    (∀ x y : FieldValue, x.kind ≠ .container → y.kind ≠ .container → x.strictEq y = true →
      (x.text = y.text ↔ x.sharesDigits y = true))
    ∧ (∀ (keys : List FieldPath) (records : List Json) (r s : Json),
      r ∈ records → s ∈ records →
      (∀ key ∈ keys, (key.resolve r).kind ≠ .container
        ∧ (key.resolve r).strictEq (key.resolve s) = true) →
      ((∃ names members, names.length = keys.length
        ∧ (groupRecords keys records).follow? names = some (.records members)
        ∧ r ∈ members ∧ s ∈ members)
        ↔ ∀ key ∈ keys, (key.resolve r).sharesDigits (key.resolve s) = true))
    ∧ ∀ (options : Options) (path : String) (v : Operand) (vs : List Operand) (c : Clause),
      v ∈ vs → (Test.compareBy path "===" v).clause options = .ok c →
      ∃ among, (Test.oneOf path vs).clause options = .ok among
        ∧ ∀ record : Json, ((⟨path⟩ : FieldPath).resolve record).isTruthy = true →
          c.matchesRecord record = true →
          ((⟨path⟩ : FieldPath).resolve record).sharesDigits v.toFieldValue = true →
          among.matchesRecord record = true := by
  refine ⟨fun x y hx _ => text_eq_iff_sharesDigits hx, fun keys records r s hr hs hkeys => ?_, ?_⟩
  · rw [exists_common_bucket_iff keys hr hs]
    exact forall₂_congr fun key hkey =>
      text_eq_iff_sharesDigits (hkeys key hkey).1 (hkeys key hkey).2
  · intro options path v vs c hmem hclause
    refine ⟨_, clause_oneOf_of_strictEq vs hclause, fun record htruthy hequal hdigits => ?_⟩
    obtain ⟨-, rfl⟩ := Test.clause_strictEq hclause
    exact Clause.matchesRecord_ofCandidates hmem htruthy hequal hdigits

/-- The integer 2^53 and the float have one text, and so do zero and the negative zero; the integer
2^60 and the float have not. Records with the first share their bucket, and a record with the one
is found by the other among candidates. -/
theorem strictEq_shows_in_text_of_floats :
    let float (n : Int) : Number := .float (Binary64.ofInt n)
    let first : Json := .object [("id", .ofInt 9007199254740992 (by decide))]
    let second : Json := .object [("id", .number (.float (.ofInt 9007199254740992) (by decide)))]
    let literals : List Operand := [.null, .number (float 9007199254740992)]
    (number (.signed 9007199254740992)).text = (number (float 9007199254740992)).text
      ∧ (number (.unsigned 0)).text = (number (.float (.ofRank true 0))).text
      ∧ (number (.signed 1152921504606846976)).text ≠ (number (float 1152921504606846976)).text
      ∧ (∃ names members, names.length = 1
        ∧ (groupRecords [⟨"id"⟩] [first, .null, second]).follow? names = some (.records members)
        ∧ first ∈ members ∧ second ∈ members)
      ∧ ∃ among, (Test.oneOf "id" literals).clause {} = .ok among
        ∧ among.matchesRecord first = true := by
  intro float first second literals
  obtain ⟨htexts, hbuckets, hcandidates⟩ := strictEq_shows_in_text
  have hfirst : (⟨"id"⟩ : FieldPath).resolve first = number (.signed 9007199254740992) := by
    decide +kernel
  have hsecond : (⟨"id"⟩ : FieldPath).resolve second = number (float 9007199254740992) := by
    decide +kernel
  have hequal : (number (.signed 9007199254740992)).strictEq (number (float 9007199254740992))
      = true := by decide +kernel
  have hdigits : (number (.signed 9007199254740992)).sharesDigits (number (float 9007199254740992))
      = true := by decide +kernel
  have hclause : (Test.compareBy "id" "===" (.number (float 9007199254740992))).clause {}
      = .ok (.compare ⟨"id"⟩ .strictEq (.number (float 9007199254740992))) := rfl
  refine ⟨(htexts _ _ (by decide) (by decide) hequal).mpr hdigits,
    (htexts _ _ (by decide) (by decide) (by decide +kernel)).mpr (by decide +kernel),
    fun h => ?_, ?_, ?_⟩
  · have hshown := (htexts _ _ (by decide) (by decide) (by decide +kernel)).mp h
    revert hshown
    decide +kernel
  · refine (hbuckets [⟨"id"⟩] [first, .null, second] first second (by simp) (by simp) ?_).mpr ?_
    · simp [hfirst, hsecond, hequal, kind]
    · simp [hfirst, hsecond, hdigits]
  · obtain ⟨among, hamong, hmatches⟩ :=
      hcandidates {} "id" _ literals _ (by simp [literals]) hclause
    refine ⟨among, hamong, hmatches first ?_ ?_ ?_⟩
    · rw [hfirst]
      decide +kernel
    · decide +kernel
    · rw [hfirst]
      exact hdigits

/-- The integers 2^53 and 2^53 + 1 are strictly equal, but they have two texts: records with the
one and with the other are in two buckets, and a record of which `===` holds is not found by the
same literal among candidates. -/
theorem text_ne_of_strictEq_neighbours :
    let low : Number := .signed 9007199254740992
    let high : Number := .signed 9007199254740993
    let first : Json := .object [("id", .ofInt 9007199254740992 (by decide))]
    let second : Json := .object [("id", .ofInt 9007199254740993 (by decide))]
    (number low).strictEq (number high) = true ∧ (number low).text ≠ (number high).text
      ∧ (¬ ∃ names members, names.length = 1
        ∧ (groupRecords [⟨"id"⟩] [first, second]).follow? names = some (.records members)
        ∧ first ∈ members ∧ second ∈ members)
      ∧ ((⟨"id"⟩ : FieldPath).resolve first).isTruthy = true
      ∧ (Clause.compare ⟨"id"⟩ .strictEq (.number high)).matchesRecord first = true
      ∧ (Clause.ofCandidates ⟨"id"⟩ [.number high]).matchesRecord first = false := by
  intro low high first second
  refine ⟨by decide +kernel, by decide +kernel, fun hshared => ?_, by decide +kernel,
    by decide +kernel, by decide +kernel⟩
  have hnames := (exists_common_bucket_iff [⟨"id"⟩] (by simp) (by simp)).mp hshared
  have hone : bucketName ⟨"id"⟩ first ≠ bucketName ⟨"id"⟩ second := by decide +kernel
  exact hone (hnames _ (List.mem_singleton.mpr rfl))

end FieldValue

end RecordQuery
