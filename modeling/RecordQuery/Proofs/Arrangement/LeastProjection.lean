import RecordQuery.Proofs.Arrangement.Insertion
import RecordQuery.Proofs.Json.SubDocument

/-!
# Projection onto aligned keys

A key is aligned with a record if it goes through its objects by names
and through its arrays by indices made of digits (`LeadsTo`). The
containers that projection makes are then of the kinds that the record
has, so the projection is built inside the record.

One step is enough to see that (`fill_within`): a value put at a path
grows a document, does not grow it beyond any document that has the
value there, and can then be found. So the projection is part of every
document that has the values of all keys, the record among them, and
being the least of these it does not depend on the order of the keys.
-/

namespace RecordQuery

/-- Segments lead through objects by names that are no indices and through arrays by indices
made of digits. -/
inductive LeadsTo : Json → List String → Json → Prop where
  | here (json : Json) : LeadsTo json [] json
  | member {members : Members} {name : String} {value target : Json} {rest : List String}
    (hname : digitIndex? name = none) (hvalue : Members.get? name members = some value)
    (hrest : LeadsTo value rest target) : LeadsTo (.object members) (name :: rest) target
  | element {items : List Json} {segment : String} {index : Nat} {item target : Json}
    {rest : List String} (hindex : digitIndex? segment = some index)
    (hitem : items[index]? = some item) (hrest : LeadsTo item rest target) :
    LeadsTo (.array items) (segment :: rest) target

namespace LeadsTo

theorem follow? {json target : Json} {path : List String} (h : LeadsTo json path target) :
    json.follow? path = some target := by
  induction h with
  | here json => rfl
  | member _ hvalue _ ih => rw [Json.follow?_object, hvalue, Option.bind_some, ih]
  | element hindex hitem _ ih =>
      rw [Json.follow?_array_of_index _ (readIndex?_of_digitIndex? hindex), hitem,
        Option.bind_some, ih]

/-- A part in which segments lead to a value of the whole goes there in the same steps. -/
theorem of_subDocument {whole target : Json} {path : List String} (h : LeadsTo whole path target) :
    ∀ {part : Json}, SubDocument part whole → part.follow? path = some target →
      LeadsTo part path target := by
  induction h with
  | here json =>
      intro part _ hfollow
      obtain rfl := Option.some.inj hfollow
      exact .here part
  | member hname hvalue _ ih =>
      intro part hpart hfollow
      cases hpart with
      | null => cases hfollow
      | object _ hvalues =>
          obtain ⟨inner, hinner, hrest⟩ := Option.bind_eq_some_iff.mp hfollow
          exact .member hname hinner (ih (hvalues _ _ _ hinner hvalue) hrest)
  | element hindex hitem _ ih =>
      intro part hpart hfollow
      cases hpart with
      | null => cases hfollow
      | array _ hitems =>
          rw [Json.follow?_array_of_index _ (readIndex?_of_digitIndex? hindex)] at hfollow
          obtain ⟨inner, hinner, hrest⟩ := Option.bind_eq_some_iff.mp hfollow
          exact .element hindex hinner (ih (hitems _ _ _ hinner hitem) hrest)

/-- A value found in a part is found in every document between the part and the whole. -/
theorem of_between {part target : Json} {path : List String} (h : LeadsTo part path target) :
    ∀ {between whole : Json}, SubDocument part between → SubDocument between whole →
      between.WellFormed → LeadsTo whole path target → whole.WellFormed →
      LeadsTo between path target := by
  induction h with
  | here json =>
      intro between whole hpart hwhole hwf hleads hwfWhole
      cases hleads
      rw [hpart.antisymm hwhole hwfWhole hwf]
      exact .here between
  | member hname hvalue _ ih =>
      intro between whole hpart hwhole hwf hleads hwfWhole
      cases hpart with
      | object hnames hvalues =>
          obtain ⟨middle, hmiddle⟩ := hnames _ _ hvalue
          cases hleads with
          | member _ htop hrest =>
              cases hwhole with
              | object _ hvalues' =>
                  exact .member hname hmiddle (ih (hvalues _ _ _ hvalue hmiddle)
                    (hvalues' _ _ _ hmiddle htop) (hwf.member hmiddle) hrest
                    (hwfWhole.member htop))
          | element _ _ _ => cases hwhole
  | element hindex hitem _ ih =>
      rename_i segment index item target rest
      intro between whole hpart hwhole hwf hleads hwfWhole
      cases hpart with
      | array hlength hitems =>
          rename_i items
          have hlt := (List.getElem?_eq_some_iff.mp hitem).1
          have hmiddle := List.getElem?_eq_getElem (Nat.lt_of_lt_of_le hlt hlength)
          cases hleads with
          | member _ _ _ => cases hwhole
          | element hindex' htop hrest =>
              obtain rfl := Option.some.inj (hindex.symm.trans hindex')
              cases hwhole with
              | array _ hitems' =>
                  exact .element hindex hmiddle (ih (hitems _ _ _ hitem hmiddle)
                    (hitems' _ _ _ hmiddle htop) (hwf.item hmiddle) hrest
                    (hwfWhole.item htop))

end LeadsTo

/-! ## Slots of a part -/

namespace SubDocument

theorem insert_grows {members : Members} {name : String} {filled : Json}
    (h : SubDocument ((Members.get? name members).getD .null) filled) :
    SubDocument (.object members) (.object (members.insert name filled)) := by
  refine .object (fun other x hx => ?_) (fun other x y hx hy => ?_)
  · rw [Members.get?_insert]
    split
    · exact ⟨filled, rfl⟩
    · exact ⟨x, hx⟩
  · rw [Members.get?_insert] at hy
    split at hy
    · rename_i hother
      obtain rfl := Option.some.inj hy
      rwa [← hother, hx, Option.getD_some] at h
    · obtain rfl := Option.some.inj (hx.symm.trans hy)
      exact .refl x

theorem insert_within {members whole : Members} {name : String} {value filled : Json}
    (hmembers : SubDocument (.object members) (.object whole))
    (hvalue : Members.get? name whole = some value) (h : SubDocument filled value) :
    SubDocument (.object (members.insert name filled)) (.object whole) := by
  cases hmembers with
  | object hnames hvalues =>
      refine .object (fun other x hx => ?_) (fun other x y hx hy => ?_)
      · rw [Members.get?_insert] at hx
        split at hx
        · rename_i hother
          exact ⟨value, hother ▸ hvalue⟩
        · exact hnames other x hx
      · rw [Members.get?_insert] at hx
        split at hx
        · rename_i hother
          obtain rfl := Option.some.inj hx
          rw [hother, hvalue] at hy
          obtain rfl := Option.some.inj hy
          exact h
        · exact hvalues other x y hx hy

theorem set_padTo_grows {items : List Json} {index : Nat} {filled : Json}
    (h : SubDocument (items[index]?.getD .null) filled) :
    SubDocument (.array items) (.array ((Json.padTo index items).set index filled)) := by
  refine .array ?_ fun i x y hx hy => ?_
  · rw [List.length_set, Json.length_padTo]
    omega
  · rw [Json.getElem?_set_padTo] at hy
    split at hy
    · rename_i hi
      obtain rfl := Option.some.inj hy
      rwa [← hi, hx, Option.getD_some] at h
    · rw [if_pos (List.getElem?_eq_some_iff.mp hx).1] at hy
      obtain rfl := Option.some.inj (hx.symm.trans hy)
      exact .refl x

theorem set_padTo_within {items whole : List Json} {index : Nat} {item filled : Json}
    (hitems : SubDocument (.array items) (.array whole)) (hitem : whole[index]? = some item)
    (h : SubDocument filled item) :
    SubDocument (.array ((Json.padTo index items).set index filled)) (.array whole) := by
  have hlt : index < whole.length := (List.getElem?_eq_some_iff.mp hitem).1
  cases hitems with
  | array hle hvalues =>
      refine .array ?_ fun i x y hx hy => ?_
      · rw [List.length_set, Json.length_padTo]
        omega
      · rw [Json.getElem?_set_padTo] at hx
        split at hx
        · rename_i hi
          obtain rfl := Option.some.inj hx
          rw [hi, hitem] at hy
          obtain rfl := Option.some.inj hy
          exact h
        · split at hx
          · exact hvalues i x y hx hy
          · split at hx
            · obtain rfl := Option.some.inj hx
              exact .null y
            · cases hx

theorem emptyObject (whole : Members) : SubDocument (.object []) (.object whole) :=
  .object (fun _ _ h => by cases h) (fun _ _ _ h => by cases h)

theorem emptyArray (whole : List Json) : SubDocument (.array []) (.array whole) :=
  .array (Nat.zero_le _) (fun _ _ _ h => by cases h)

end SubDocument

/-! ## One value put in -/

namespace Json

/-- A document grown inside a whole so that a path leads to a value. -/
structure FillsWithin (part : Json) (path : List String) (target whole filled : Json) : Prop where
  grows : SubDocument part filled
  within : SubDocument filled whole
  leads : LeadsTo filled path target

namespace FillsWithin

theorem of_null {path : List String} {part target whole filled : Json}
    (h : FillsWithin part path target whole filled) :
    FillsWithin .null path target whole filled :=
  ⟨.null filled, h.within, h.leads⟩

theorem member {members whole : Members} {name : String} {value target filled : Json}
    {rest : List String} (hmembers : SubDocument (.object members) (.object whole))
    (hname : digitIndex? name = none) (hvalue : Members.get? name whole = some value)
    (h : FillsWithin ((Members.get? name members).getD .null) rest target value filled) :
    FillsWithin (.object members) (name :: rest) target (.object whole)
      (.object (members.insert name filled)) := by
  have hfilled : Members.get? name (members.insert name filled) = some filled := by
    rw [Members.get?_insert, if_pos rfl]
  exact ⟨.insert_grows h.grows, hmembers.insert_within hvalue h.within,
    .member hname hfilled h.leads⟩

theorem element {items whole : List Json} {segment : String} {index : Nat}
    {item target filled : Json} {rest : List String}
    (hitems : SubDocument (.array items) (.array whole))
    (hindex : digitIndex? segment = some index) (hitem : whole[index]? = some item)
    (h : FillsWithin (items[index]?.getD .null) rest target item filled) :
    FillsWithin (.array items) (segment :: rest) target (.array whole)
      (.array ((padTo index items).set index filled)) := by
  have hfilled : ((padTo index items).set index filled)[index]? = some filled := by
    rw [getElem?_set_padTo, if_pos rfl]
  exact ⟨.set_padTo_grows h.grows, hitems.set_padTo_within hitem h.within,
    .element hindex hfilled h.leads⟩

end FillsWithin

/-- A value put into a part of a document that has it at the same path grows the part
inside that document. -/
theorem fill_within {whole target : Json} {path : List String} (h : LeadsTo whole path target) :
    ∀ {slot : Json}, SubDocument slot whole →
      FillsWithin slot path target whole (fill target path slot) := by
  induction h with
  | here json =>
      intro slot hslot
      exact ⟨hslot, .refl json, .here json⟩
  | member hname hvalue _ ih =>
      rename_i whole name value target rest _
      have hinside : ∀ {members : Members}, SubDocument (.object members) (.object whole) →
          FillsWithin (.object members) (name :: rest) target (.object whole)
            (insertAt target (name :: rest) (.object members)) := by
        intro members hmembers
        rw [insertAt_object]
        exact .member hmembers hname hvalue (ih (hmembers.member hvalue))
      intro slot hslot
      cases hslot with
      | null =>
          rw [fill_of_not_isContainer target name rest rfl, containerFor_of_not_index hname]
          exact (hinside (SubDocument.emptyObject whole)).of_null
      | object hnames hvalues =>
          rw [fill_of_isContainer target _ rfl]
          exact hinside (.object hnames hvalues)
  | element hindex hitem _ ih =>
      rename_i whole segment index item target rest _
      have hinside : ∀ {items : List Json}, SubDocument (.array items) (.array whole) →
          FillsWithin (.array items) (segment :: rest) target (.array whole)
            (insertAt target (segment :: rest) (.array items)) := by
        intro items hitems
        rw [insertAt_array_of_index target hindex]
        exact .element hitems hindex hitem (ih (hitems.item hitem))
      intro slot hslot
      cases hslot with
      | null =>
          rw [fill_of_not_isContainer target segment rest rfl, containerFor_of_index hindex]
          exact (hinside (SubDocument.emptyArray whole)).of_null
      | array hlength hitems =>
          rw [fill_of_isContainer target _ rfl]
          exact hinside (.array hlength hitems)

/-! ## All values put in -/

/-- Values put into a part of a document that has them all grow it inside that document. -/
theorem putAll_within {whole : Json} :
    ∀ {puts : List (List String × Json)}, (∀ put ∈ puts, LeadsTo whole put.1 put.2) →
      ∀ {members : Members}, SubDocument (.object members) whole →
        ∃ filled, putAll puts (.object members) = .object filled
          ∧ SubDocument (.object members) (.object filled)
          ∧ SubDocument (.object filled) whole
  | [], _, members, h => ⟨members, rfl, .refl _, h⟩
  | (path, value) :: rest, hputs, members, h => by
      obtain ⟨hput, hrest⟩ := List.forall_mem_cons.mp hputs
      have hfill := fill_within hput h
      rw [fill_of_isContainer value path rfl] at hfill
      have hall : putAll ((path, value) :: rest) (.object members)
          = putAll rest (insertAt value path (.object members)) := rfl
      rw [hall]
      generalize insertAt value path (.object members) = next at hfill
      -- What an object grows to is an object.
      cases hfill.grows with
      | object hnames hvalues =>
          obtain ⟨filled, heq, hgrows, hwithin⟩ := putAll_within hrest hfill.within
          exact ⟨filled, heq, (SubDocument.object hnames hvalues).trans hgrows, hwithin⟩

/-- Values put into a part of a document that has them all can be found there afterwards. -/
theorem putAll_leads {whole : Json} (hwhole : whole.WellFormed)
    {puts : List (List String × Json)} (hputs : ∀ put ∈ puts, LeadsTo whole put.1 put.2)
    {members : Members} (h : SubDocument (.object members) whole)
    (hwf : (putAll puts (.object members)).WellFormed) :
    ∀ put ∈ puts, LeadsTo (putAll puts (.object members)) put.1 put.2 := by
  intro put hmem
  obtain ⟨before, after, rfl⟩ := List.append_of_mem hmem
  rw [List.forall_mem_append, List.forall_mem_cons] at hputs
  obtain ⟨hbefore, hput, hafter⟩ := hputs
  obtain ⟨middle, hmiddle, -, hwithin⟩ := putAll_within hbefore h
  have hfill := fill_within hput hwithin
  rw [fill_of_isContainer put.2 put.1 rfl] at hfill
  have hall : putAll (before ++ put :: after) (.object members)
      = putAll after (insertAt put.2 put.1 (.object middle)) := by
    rw [← hmiddle]
    exact List.foldl_append
  rw [hall] at hwf ⊢
  generalize insertAt put.2 put.1 (.object middle) = next at hfill hwf ⊢
  cases hfill.grows with
  | object _ _ =>
      obtain ⟨filled, heq, hgrows, htop⟩ := putAll_within hafter hfill.within
      rw [heq] at hwf ⊢
      exact hfill.leads.of_between hgrows htop hwf hput hwhole

end Json

/-! ## The projection -/

/-- Every key that resolves in the record does so by names and indices made of digits. -/
def Aligned (record : Json) (keys : List FieldPath) : Prop :=
  ∀ key ∈ keys, key.resolve record ≠ .undefined → ∃ target, LeadsTo record key.segments target

/-- An object inside the record in which every key that resolves in the record resolves to
the same value. -/
structure Keeps (record : Json) (keys : List FieldPath) (part : Json) : Prop where
  isObject : ∃ members, part = .object members
  within : SubDocument part record
  resolves : ∀ key ∈ keys, key.resolve record ≠ .undefined →
    (key.resolve part).toJson? = (key.resolve record).toJson?

theorem Aligned.leadsTo_of_mem_found {record : Json} {keys : List FieldPath}
    (h : Aligned record keys) : ∀ put ∈ found record keys, LeadsTo record put.1 put.2 := by
  rintro ⟨path, value⟩ hmem
  obtain ⟨⟨key, hkey, rfl⟩, hvalue⟩ := mem_found.mp hmem
  obtain ⟨target, htarget⟩ := h key hkey (FieldPath.resolve_ne_undefined.mpr ⟨value, hvalue⟩)
  obtain rfl := Option.some.inj (htarget.follow?.symm.trans hvalue)
  exact htarget

/-- A part that keeps the values of all keys is reached by them as the record is. -/
theorem Keeps.leadsTo_of_mem_found {record part : Json} {keys : List FieldPath}
    (haligned : Aligned record keys) (h : Keeps record keys part) :
    ∀ put ∈ found record keys, LeadsTo part put.1 put.2 := by
  rintro ⟨path, value⟩ hmem
  have hleads := haligned.leadsTo_of_mem_found _ hmem
  obtain ⟨⟨key, hkey, rfl⟩, hvalue⟩ := mem_found.mp hmem
  have hsame := h.resolves key hkey (FieldPath.resolve_ne_undefined.mpr ⟨value, hvalue⟩)
  rw [FieldPath.toJson?_resolve, FieldPath.toJson?_resolve, hvalue] at hsame
  exact hleads.of_subDocument h.within hsame

section

variable {members : Members} {keys : List FieldPath}

theorem wellFormed_project {record : Json} (hrecord : record.WellFormed) (hkeys : keys ≠ []) :
    (project keys record).WellFormed := by
  rw [project_eq_putAll hkeys]
  exact hrecord.putAll .emptyObject

/-- Projection onto aligned keys keeps their values and nothing outside the record. -/
theorem keeps_project (hrecord : (Json.object members).WellFormed) (hkeys : keys ≠ [])
    (haligned : Aligned (.object members) keys) :
    Keeps (.object members) keys (project keys (.object members)) := by
  have hputs := haligned.leadsTo_of_mem_found
  have hempty := SubDocument.emptyObject members
  have hwf := wellFormed_project hrecord hkeys
  rw [project_eq_putAll hkeys] at hwf ⊢
  obtain ⟨filled, heq, -, hwithin⟩ := Json.putAll_within hputs hempty
  refine ⟨⟨filled, heq⟩, heq ▸ hwithin, fun key hkey hresolves => ?_⟩
  obtain ⟨value, hvalue⟩ := FieldPath.resolve_ne_undefined.mp hresolves
  have hmem := mem_found.mpr ⟨⟨key, hkey, rfl⟩, hvalue⟩
  have hleads := Json.putAll_leads hrecord hputs hempty hwf _ hmem
  rw [FieldPath.toJson?_resolve, FieldPath.toJson?_resolve, hvalue, hleads.follow?]

/-- Projection onto aligned keys is part of every document that keeps their values. -/
theorem project_subDocument_of_keeps {record part : Json} (hkeys : keys ≠ [])
    (haligned : Aligned record keys) (h : Keeps record keys part) :
    SubDocument (project keys record) part := by
  have hputs := h.leadsTo_of_mem_found haligned
  obtain ⟨members, rfl⟩ := h.isObject
  obtain ⟨filled, heq, -, hwithin⟩ :=
    Json.putAll_within hputs (SubDocument.emptyObject members)
  rw [project_eq_putAll hkeys, heq]
  exact hwithin

theorem Aligned.perm {record : Json} {keys' : List FieldPath} (h : Aligned record keys)
    (hperm : keys'.Perm keys) : Aligned record keys' :=
  fun key hkey => h key (hperm.subset hkey)

theorem Keeps.perm {record part : Json} {keys' : List FieldPath} (h : Keeps record keys part)
    (hperm : keys'.Perm keys) : Keeps record keys' part :=
  ⟨h.isObject, h.within, fun key hkey => h.resolves key (hperm.subset hkey)⟩

/-- **Projection onto aligned keys only removes data, and as much as it can.** It does not depend
on the order of the keys, it is an object inside the record that keeps the whole value of every
key that resolves there, and it is part of every other such object. -/
theorem project_least_of_aligned (hrecord : (Json.object members).WellFormed) (hkeys : keys ≠ [])
    (haligned : ∀ key ∈ keys, key.resolve (.object members) ≠ .undefined →
      ∃ target, LeadsTo (.object members) key.segments target) :
    (∀ keys' : List FieldPath, keys'.Perm keys →
      project keys' (.object members) = project keys (.object members))
    ∧ Keeps (.object members) keys (project keys (.object members))
    ∧ ∀ part, Keeps (.object members) keys part →
        SubDocument (project keys (.object members)) part := by
  refine ⟨fun keys' hperm => ?_, keeps_project hrecord hkeys haligned,
    fun part => project_subDocument_of_keeps hkeys haligned⟩
  have hkeys' : keys' ≠ [] := fun h => hkeys (List.nil_perm.mp (h ▸ hperm))
  have haligned' := Aligned.perm haligned hperm
  have hkeeps := keeps_project hrecord hkeys haligned
  have hkeeps' := keeps_project hrecord hkeys' haligned'
  exact (project_subDocument_of_keeps hkeys' haligned' (hkeeps.perm hperm)).antisymm
    (project_subDocument_of_keeps hkeys haligned (hkeeps'.perm hperm.symm))
    (wellFormed_project hrecord hkeys') (wellFormed_project hrecord hkeys)

end

/-- The elements of an array are asked for from its end, together with a member of an element of
another and with a field that is not there. -/
theorem project_least_of_aligned_from_the_end :
    let members : Members := [("rows", .array [.object [("x", .bool true), ("y", .bool false)]]),
      ("tags", .array [.string "a", .string "b", .string "c"])]
    let keys : List FieldPath := [⟨"tags.2"⟩, ⟨"missing"⟩, ⟨"tags.0"⟩, ⟨"rows.0.y"⟩]
    let projected : Json := .object [("rows", .array [.object [("y", .bool false)]]),
      ("tags", .array [.string "a", .null, .string "c"])]
    (Json.object members).WellFormed
      ∧ keys ≠ []
      ∧ (∀ key ∈ keys, key.resolve (.object members) ≠ .undefined →
          ∃ target, LeadsTo (.object members) key.segments target)
      ∧ project keys (.object members) = projected
      ∧ project [⟨"rows.0.y"⟩, ⟨"tags.0"⟩, ⟨"tags.2"⟩, ⟨"missing"⟩] (.object members) = projected
      ∧ ∀ part, Keeps (.object members) keys part → SubDocument projected part := by
  intro members keys projected
  have hmembers : (Json.object members).WellFormed := .of_isWellFormed (by decide +kernel)
  have haligned : ∀ key ∈ keys, key.resolve (.object members) ≠ .undefined →
      ∃ target, LeadsTo (.object members) key.segments target := by
    intro key hkey hresolves
    simp only [keys, List.mem_cons, List.not_mem_nil, or_false] at hkey
    obtain rfl | rfl | rfl | rfl := hkey
    · exact ⟨.string "c", .member (by decide +kernel) rfl
        (.element (by decide +kernel : digitIndex? "2" = some 2) rfl (.here _))⟩
    · exact absurd (by decide +kernel) hresolves
    · exact ⟨.string "a", .member (by decide +kernel) rfl
        (.element (by decide +kernel : digitIndex? "0" = some 0) rfl (.here _))⟩
    · exact ⟨.bool false, .member (by decide +kernel) rfl
        (.element (by decide +kernel : digitIndex? "0" = some 0) rfl
          (.member (by decide +kernel) rfl (.here _)))⟩
  have hprojected : project keys (.object members) = projected := by decide +kernel
  obtain ⟨hperm, -, hleast⟩ := project_least_of_aligned hmembers (List.cons_ne_nil _ _) haligned
  refine ⟨hmembers, List.cons_ne_nil _ _, haligned, hprojected, ?_, hprojected ▸ hleast⟩
  exact (hperm _ (by decide)).trans hprojected

end RecordQuery
