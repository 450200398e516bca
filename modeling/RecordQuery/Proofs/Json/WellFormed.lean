import RecordQuery.Json.Members

/-!
# Well-formed documents

The documents that can be read: the members of every object stand in
ascending order of their names, so no name occurs twice. Putting a
member into an object keeps to it (`Ascending.insert`). Members in
ascending order are determined by what their names look up
(`Ascending.ext`).
-/

namespace RecordQuery

namespace Members

/-- The names are in strictly ascending order. -/
def Ascending (members : Members) : Prop :=
  members.Pairwise fun a b => a.1 < b.1

theorem mem_of_get? {name : String} {value : Json} :
    ∀ {members : Members}, get? name members = some value → (name, value) ∈ members
  | (other, found) :: rest, h => by
      rw [get?] at h
      split at h
      · rename_i hname
        obtain rfl := Option.some.inj h
        exact hname ▸ List.mem_cons_self
      · exact List.mem_cons_of_mem _ (mem_of_get? h)

theorem get?_eq_none_of_lt {name : String} {members : Members}
    (h : ∀ entry ∈ members, name < entry.1) : get? name members = none := by
  cases hget : get? name members with
  | none => rfl
  | some value => exact absurd (h _ (mem_of_get? hget)) (String.lt_irrefl name)

theorem mem_insert {name : String} {value : Json} {entry : String × Json} :
    ∀ {members : Members}, entry ∈ insert name value members →
      entry = (name, value) ∨ entry ∈ members
  | [], h => Or.inl (List.mem_singleton.mp h)
  | first :: rest, h => by
      rw [insert] at h
      split at h
      · exact (List.mem_cons.mp h).imp_right (List.mem_cons_of_mem first)
      · split at h
        · exact List.mem_cons.mp h
        · rcases List.mem_cons.mp h with rfl | hrest
          · exact Or.inr List.mem_cons_self
          · exact (mem_insert hrest).imp_right (List.mem_cons_of_mem first)

theorem Ascending.insert (name : String) (value : Json) :
    ∀ {members : Members}, Ascending members → Ascending (members.insert name value)
  | [], _ => List.pairwise_singleton _ _
  | (other, found) :: rest, h => by
      obtain ⟨hfirst, hrest⟩ := List.pairwise_cons.mp h
      rw [Members.insert]
      split
      · rename_i hname
        exact List.pairwise_cons.mpr ⟨hname ▸ hfirst, hrest⟩
      · rename_i hne
        split
        · rename_i hlt
          refine List.pairwise_cons.mpr ⟨fun entry hentry => ?_, h⟩
          rcases List.mem_cons.mp hentry with rfl | hentry
          · exact hlt
          · exact String.lt_trans hlt (hfirst entry hentry)
        · rename_i hnot
          refine List.pairwise_cons.mpr ⟨fun entry hentry => ?_, Ascending.insert name value hrest⟩
          rcases mem_insert hentry with rfl | hentry
          · exact Std.lt_of_le_of_ne (String.not_lt.mp hnot) (Ne.symm hne)
          · exact hfirst entry hentry

theorem ascending_ofList (entries : List (String × Json)) : Ascending (ofList entries) :=
  List.foldlRecOn entries _ List.Pairwise.nil fun _ h entry _ => h.insert entry.1 entry.2

/-- Members in ascending order are determined by what each name looks up. -/
theorem Ascending.ext :
    ∀ {xs ys : Members}, Ascending xs → Ascending ys →
      (∀ name, get? name xs = get? name ys) → xs = ys
  | [], [], _, _, _ => rfl
  | [], (name, value) :: _, _, _, h => by
      have hname := h name
      rw [get?, get?, if_pos rfl] at hname
      cases hname
  | (name, value) :: _, [], _, _, h => by
      have hname := h name
      rw [get?, get?, if_pos rfl] at hname
      cases hname
  | (name, value) :: xs, (other, found) :: ys, hxs, hys, h => by
      obtain ⟨hx, hxs'⟩ := List.pairwise_cons.mp hxs
      obtain ⟨hy, hys'⟩ := List.pairwise_cons.mp hys
      -- Each first name occurs in the other list, where the first name is the least.
      have hfirst : name = other := by
        have hleft : (name, value) ∈ (other, found) :: ys :=
          mem_of_get? ((h name).symm.trans (by rw [get?, if_pos rfl]))
        have hright : (other, found) ∈ (name, value) :: xs :=
          mem_of_get? ((h other).trans (by rw [get?, if_pos rfl]))
        rcases List.mem_cons.mp hleft with heq | hmem
        · exact congrArg Prod.fst heq
        · rcases List.mem_cons.mp hright with heq | hmem'
          · exact (congrArg Prod.fst heq).symm
          · exact absurd (hy _ hmem) (String.lt_asymm (hx _ hmem'))
      subst hfirst
      have hvalue : value = found := by
        have hname := h name
        rw [get?, get?, if_pos rfl, if_pos rfl] at hname
        exact Option.some.inj hname
      have hrest : ∀ wanted, get? wanted xs = get? wanted ys := by
        intro wanted
        by_cases hwanted : wanted = name
        · subst hwanted
          rw [get?_eq_none_of_lt hx, get?_eq_none_of_lt hy]
        · have hname := h wanted
          rwa [get?, get?, if_neg hwanted, if_neg hwanted] at hname
      rw [hvalue, Ascending.ext hxs' hys' hrest]

end Members

namespace Json

/-- In every object the members stand in ascending order of their names. -/
inductive WellFormed : Json → Prop where
  | null : WellFormed .null
  | bool (b : Bool) : WellFormed (.bool b)
  | number (n : JsonNumber) : WellFormed (.number n)
  | string (s : String) : WellFormed (.string s)
  | array {items : List Json} (hitems : ∀ item ∈ items, WellFormed item) :
    WellFormed (.array items)
  | object {members : Members} (hnames : Members.Ascending members)
    (hvalues : ∀ entry ∈ members, WellFormed entry.2) : WellFormed (.object members)

namespace WellFormed

theorem item {items : List Json} (h : (Json.array items).WellFormed) {index : Nat} {item : Json}
    (hitem : items[index]? = some item) : item.WellFormed := by
  cases h with
  | array hitems => exact hitems item (List.mem_of_getElem? hitem)

theorem ascending {members : Members} (h : (Json.object members).WellFormed) :
    members.Ascending := by
  cases h with
  | object hnames _ => exact hnames

theorem member {members : Members} (h : (Json.object members).WellFormed) {name : String}
    {value : Json} (hvalue : Members.get? name members = some value) : value.WellFormed := by
  cases h with
  | object _ hvalues => exact hvalues _ (Members.mem_of_get? hvalue)

theorem insert {members : Members} (h : (Json.object members).WellFormed) (name : String)
    {value : Json} (hvalue : value.WellFormed) :
    (Json.object (members.insert name value)).WellFormed := by
  cases h with
  | object hnames hvalues =>
      refine .object (hnames.insert name value) fun entry hentry => ?_
      rcases Members.mem_insert hentry with rfl | hentry
      · exact hvalue
      · exact hvalues entry hentry

theorem emptyObject : (Json.object []).WellFormed :=
  .object List.Pairwise.nil fun _ h => absurd h List.not_mem_nil

end WellFormed

instance (members : Members) : Decidable members.Ascending :=
  inferInstanceAs (Decidable (members.Pairwise fun a b => a.1 < b.1))

mutual

/-- Whether a document is well-formed can be computed. -/
def isWellFormed : Json → Bool
  | .array items => itemsWellFormed items
  | .object members => decide (Members.Ascending members) && membersWellFormed members
  | .null | .bool _ | .number _ | .string _ => true

def itemsWellFormed : List Json → Bool
  | [] => true
  | item :: rest => isWellFormed item && itemsWellFormed rest

def membersWellFormed : List (String × Json) → Bool
  | [] => true
  | (_, value) :: rest => isWellFormed value && membersWellFormed rest

end

mutual

theorem WellFormed.of_isWellFormed :
    ∀ {json : Json}, json.isWellFormed = true → json.WellFormed
  | .null, _ => .null
  | .bool b, _ => .bool b
  | .number n, _ => .number n
  | .string s, _ => .string s
  | .array items, h => .array (wellFormed_of_itemsWellFormed h)
  | .object members, h => by
      obtain ⟨hnames, hvalues⟩ := Bool.and_eq_true_iff.mp h
      exact .object (of_decide_eq_true hnames) (wellFormed_of_membersWellFormed hvalues)

theorem wellFormed_of_itemsWellFormed :
    ∀ {items : List Json}, itemsWellFormed items = true → ∀ item ∈ items, item.WellFormed
  | [], _ => fun _ hmem => absurd hmem List.not_mem_nil
  | item :: rest, h => by
      obtain ⟨hitem, hrest⟩ := Bool.and_eq_true_iff.mp h
      exact List.forall_mem_cons.mpr
        ⟨.of_isWellFormed hitem, wellFormed_of_itemsWellFormed hrest⟩

theorem wellFormed_of_membersWellFormed :
    ∀ {members : List (String × Json)}, membersWellFormed members = true →
      ∀ entry ∈ members, entry.2.WellFormed
  | [], _ => fun _ hmem => absurd hmem List.not_mem_nil
  | (name, value) :: rest, h => by
      obtain ⟨hvalue, hrest⟩ := Bool.and_eq_true_iff.mp h
      exact List.forall_mem_cons.mpr
        ⟨.of_isWellFormed hvalue, wellFormed_of_membersWellFormed hrest⟩

end

end Json

end RecordQuery
