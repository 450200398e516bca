import RecordQuery.Proofs.Json.WellFormed

/-!
# Sub-documents

One document is part of another (`SubDocument`) if it can be had from it
by leaving out members, cutting arrays short at their end and putting
`null` for values. This is a partial order of well-formed documents with
`null` below all others (`SubDocument.refl`, `SubDocument.trans`,
`SubDocument.antisymm`).
-/

namespace RecordQuery

/-- A document that holds nothing that the other does not hold at the same place. -/
inductive SubDocument : Json → Json → Prop where
  | null (whole : Json) : SubDocument .null whole
  | bool (b : Bool) : SubDocument (.bool b) (.bool b)
  | number (n : JsonNumber) : SubDocument (.number n) (.number n)
  | string (s : String) : SubDocument (.string s) (.string s)
  | array {items whole : List Json} (hlength : items.length ≤ whole.length)
    (hitems : ∀ (i : Nat) (x y : Json), items[i]? = some x → whole[i]? = some y →
      SubDocument x y) : SubDocument (.array items) (.array whole)
  | object {members whole : Members}
    (hnames : ∀ (name : String) (x : Json), Members.get? name members = some x →
      ∃ y, Members.get? name whole = some y)
    (hvalues : ∀ (name : String) (x y : Json), Members.get? name members = some x →
      Members.get? name whole = some y → SubDocument x y) :
    SubDocument (.object members) (.object whole)

namespace SubDocument

theorem sizeOf_lt_of_getElem? {items : List Json} {i : Nat} {item : Json}
    (h : items[i]? = some item) : sizeOf item < sizeOf items :=
  List.sizeOf_lt_of_mem (List.mem_of_getElem? h)

theorem sizeOf_lt_of_get? {members : Members} {name : String} {value : Json}
    (h : Members.get? name members = some value) : sizeOf value < sizeOf members := by
  have hmem := List.sizeOf_lt_of_mem (Members.mem_of_get? h)
  simp only [Prod.mk.sizeOf_spec] at hmem
  omega

theorem refl : ∀ json : Json, SubDocument json json
  | .null => .null .null
  | .bool b => .bool b
  | .number n => .number n
  | .string s => .string s
  | .array items => by
      refine .array (Nat.le_refl _) fun i x y hx hy => ?_
      obtain rfl := Option.some.inj (hx.symm.trans hy)
      have hlt := sizeOf_lt_of_getElem? hx
      exact refl x
  | .object members => by
      refine .object (fun name x hx => ⟨x, hx⟩) fun name x y hx hy => ?_
      obtain rfl := Option.some.inj (hx.symm.trans hy)
      have hlt := sizeOf_lt_of_get? hx
      exact refl x
termination_by json => sizeOf json

theorem item {items whole : List Json} (h : SubDocument (.array items) (.array whole)) {i : Nat}
    {y : Json} (hy : whole[i]? = some y) : SubDocument (items[i]?.getD .null) y := by
  cases h with
  | array _ hitems =>
      cases hx : items[i]? with
      | none => exact .null y
      | some x => exact hitems i x y hx hy

theorem member {members whole : Members} (h : SubDocument (.object members) (.object whole))
    {name : String} {y : Json} (hy : Members.get? name whole = some y) :
    SubDocument ((Members.get? name members).getD .null) y := by
  cases h with
  | object _ hvalues =>
      cases hx : Members.get? name members with
      | none => exact .null y
      | some x => exact hvalues name x y hx hy

theorem trans {a b c : Json} (hab : SubDocument a b) : SubDocument b c → SubDocument a c := by
  induction hab generalizing c with
  | null whole => exact fun _ => .null c
  | bool _ | number _ | string _ => exact id
  | array hlength hitems ih =>
      intro hbc
      cases hbc with
      | array hlength' hitems' =>
          refine .array (Nat.le_trans hlength hlength') fun i x z hx hz => ?_
          have hlt := (List.getElem?_eq_some_iff.mp hx).1
          have hy := List.getElem?_eq_getElem (Nat.lt_of_lt_of_le hlt hlength)
          exact ih i _ _ hx hy (hitems' i _ _ hy hz)
  | object hnames hvalues ih =>
      intro hbc
      cases hbc with
      | object hnames' hvalues' =>
          refine .object (fun name x hx => ?_) fun name x z hx hz => ?_
          · obtain ⟨y, hy⟩ := hnames name x hx
            exact hnames' name y hy
          · obtain ⟨y, hy⟩ := hnames name x hx
            exact ih name x y hx hy (hvalues' name y z hy hz)

theorem antisymm {a b : Json} (hab : SubDocument a b) :
    SubDocument b a → a.WellFormed → b.WellFormed → a = b := by
  induction hab with
  | null whole =>
      intro hba _ _
      cases hba
      rfl
  | bool _ | number _ | string _ => exact fun _ _ _ => rfl
  | array hlength hitems ih =>
      rename_i items whole
      intro hba ha hb
      cases hba with
      | array hlength' hitems' =>
          have hsame : items.length = whole.length := Nat.le_antisymm hlength hlength'
          refine congrArg Json.array (List.ext_getElem hsame fun i hi hi' => ?_)
          have hx := List.getElem?_eq_getElem hi
          have hy := List.getElem?_eq_getElem hi'
          exact ih i _ _ hx hy (hitems' i _ _ hy hx) (ha.item hx) (hb.item hy)
  | object hnames hvalues ih =>
      rename_i members whole
      intro hba ha hb
      cases hba with
      | object hnames' hvalues' =>
          refine congrArg Json.object (ha.ascending.ext hb.ascending fun name => ?_)
          cases hx : Members.get? name members with
          | some x =>
              obtain ⟨y, hy⟩ := hnames name x hx
              rw [hy, ih name x y hx hy (hvalues' name y x hy hx) (ha.member hx) (hb.member hy)]
          | none =>
              cases hy : Members.get? name whole with
              | none => rfl
              | some y =>
                  obtain ⟨x, hx'⟩ := hnames' name y hy
                  rw [hx] at hx'
                  cases hx'

end SubDocument

end RecordQuery
