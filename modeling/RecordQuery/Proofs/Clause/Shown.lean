import RecordQuery.Clause.Rendering
import RecordQuery.Proofs.FieldPath.Identifiers
import RecordQuery.Proofs.Number.TextCharacters
import RecordQuery.Proofs.Text.Delimited

/-!
# What the text of a clause shows

An operand or a clause as far as its text shows it (`shown`). A number is
shown by its text alone, and a search for a part of a text in which case
matters is shown as one for an element. All else can be read off the text:
a clause whose paths are strict is told from whatever follows it
(`Clause.unambiguous`), and no operand, candidate or needle changes that.
-/

namespace RecordQuery

/-- An operand as its text shows it. -/
inductive ShownOperand where
  | null
  | bool (b : Bool)
  | number (text : String)
  | string (s : String)
  deriving DecidableEq

/-- What a text that is not quoted shows. -/
def ShownOperand.ofBare (text : String) : ShownOperand :=
  if text = "null" then .null
  else if text = "true" then .bool true
  else if text = "false" then .bool false
  else .number text

/-- A clause as its text shows it. -/
inductive ShownClause where
  | truthy (field : FieldPath)
  | compare (field : FieldPath) (op : Operator) (value : ShownOperand)
  | oneOf (field : FieldPath) (candidates : List String)
  | includes (field : FieldPath) (value : ShownOperand)
  | includesKey (field key : FieldPath) (value : ShownOperand)
  | containsFolded (field : FieldPath) (needle : String)
  deriving DecidableEq

/-- An operand with a number replaced by its text. -/
def Operand.shown : Operand → ShownOperand
  | null => .null
  | bool b => .bool b
  | number n => .number n.text
  | string s => .string s

/-- A clause with its operand shown, and with a search in which case matters replaced by the one
for an element. -/
def Clause.shown : Clause → ShownClause
  | truthy field => .truthy field
  | compare field op value => .compare field op value.shown
  | oneOf field candidates => .oneOf field candidates
  | includes field value => .includes field value.shown
  | includesKey field key value => .includesKey field key value.shown
  | contains field needle true => .includes field (.string needle)
  | contains field needle false => .containsFolded field needle

open Text (Stops Unambiguous unambiguous_of_stops unambiguous_quote)

/-! ## Operands -/

namespace Operand

/-- A character that is neither a quote nor the bracket behind an operand. -/
def isBareChar (c : Char) : Bool :=
  c != '\'' && c != ')'

theorem isBareChar_of_isNumberChar {c : Char} (h : Number.isNumberChar c = true) :
    isBareChar c = true := by
  simp only [isBareChar, Bool.and_eq_true, bne_iff_ne]
  constructor
  · rintro rfl
    exact absurd h (by decide)
  · rintro rfl
    exact absurd h (by decide)

theorem quote_append_ne {s : String} {bare r t : List Char} (hbare : bare.all isBareChar)
    (ht : t.head? = some ')') : (Text.quote s).toList ++ r ≠ bare ++ t := by
  rw [Text.toList_quote, List.cons_append]
  intro h
  cases bare with
  | nil =>
      rw [List.nil_append] at h
      rw [← h] at ht
      cases ht
  | cons c rest =>
      obtain ⟨rfl, -⟩ := List.cons.inj h
      exact absurd (List.all_eq_true.mp hbare '\'' List.mem_cons_self) (by decide)

/-- The text of a number is no word with a character that no number has. -/
theorem text_number_ne {n : Number} {word : String}
    (hword : word.toList.all Number.isNumberChar = false) : n.text ≠ word := by
  rintro rfl
  exact absurd n.all_isNumberChar_text (by rw [hword]; decide)

/-- An operand is quoted, or it has bare characters only and its text says which it is. -/
theorem quoted_or_bare (v : Operand) :
    (∃ s, v = string s)
      ∨ (v.render.toList.all isBareChar ∧ ShownOperand.ofBare v.render = v.shown) := by
  cases v with
  | string s => exact Or.inl ⟨s, rfl⟩
  | null => exact Or.inr ⟨by decide, rfl⟩
  | bool b => cases b <;> exact Or.inr ⟨by decide, rfl⟩
  | number n =>
      have hbare : n.text.toList.all isBareChar := List.all_eq_true.mpr fun c hc =>
        isBareChar_of_isNumberChar (List.all_eq_true.mp n.all_isNumberChar_text c hc)
      have hshown : ShownOperand.ofBare n.text = .number n.text := by
        rw [ShownOperand.ofBare, if_neg (text_number_ne (by decide)),
          if_neg (text_number_ne (by decide)), if_neg (text_number_ne (by decide))]
      exact Or.inr ⟨hbare, hshown⟩

/-- An operand is told from the bracket that follows it. -/
theorem unambiguous (v w : Operand) :
    Unambiguous (fun v : Operand => v.render.toList) shown (·.head? = some ')') v w := by
  intro r s hr hs h
  rcases v.quoted_or_bare with ⟨text, rfl⟩ | ⟨hv, hshown⟩ <;>
    rcases w.quoted_or_bare with ⟨text', rfl⟩ | ⟨hw, hshown'⟩
  · obtain ⟨htext, hrest⟩ := unambiguous_quote text text' trivial trivial h
    exact ⟨congrArg ShownOperand.string htext, hrest⟩
  · exact absurd h (quote_append_ne hw hs)
  · exact absurd h.symm (quote_append_ne hv hr)
  · have hstops : ∀ {rest : List Char}, rest.head? = some ')' → Stops isBareChar rest := by
      intro rest hrest
      rw [Stops, hrest]
      rfl
    have hbare : Unambiguous (fun v : Operand => v.render.toList) shown (Stops isBareChar) v w :=
      unambiguous_of_stops hv hw fun htext => by
        rw [← hshown, ← hshown', String.toList_injective htext]
    exact hbare (hstops hr) (hstops hs) h

end Operand

/-! ## Operators -/

namespace Operator

/-- A character that the token of an operator may have. -/
def isOperatorChar (c : Char) : Bool :=
  ['=', '!', '>', '<'].contains c

theorem all_isOperatorChar_token (op : Operator) : op.token.toList.all isOperatorChar := by
  cases op <;> decide

/-- An operator is told from what follows it, unless that goes on with a character of one. -/
theorem unambiguous (op op' : Operator) :
    Unambiguous (fun op : Operator => op.token.toList) id (Stops isOperatorChar) op op' := by
  refine unambiguous_of_stops op.all_isOperatorChar_token op'.all_isOperatorChar_token fun h => ?_
  have hop : ofToken? op.token = ofToken? op'.token :=
    congrArg ofToken? (String.toList_injective h)
  rw [ofToken?_token, ofToken?_token] at hop
  exact Option.some.inj hop

end Operator

/-! ## Texts of clauses -/

namespace Clause

/-- The text of a clause from behind the first mention of its field. -/
def afterField : Clause → String
  | truthy _ => ")"
  | compare _ op value => " " ++ op.token ++ " " ++ value.render ++ ")"
  | oneOf field candidates =>
    " ? [" ++ ", ".intercalate (candidates.map Text.quote) ++ "].includes('' + "
      ++ renderField field ++ ") : false)"
  | includes field value =>
    " ? " ++ renderField field ++ ".includes(" ++ value.render ++ ") : false)"
  | includesKey field key value =>
    " ? " ++ renderField field ++ ".some(element => element." ++ key.text ++ " === "
      ++ value.render ++ ") : false)"
  | contains field needle caseSensitive =>
    " ? " ++ renderField field ++ (if caseSensitive then "" else ".toLowerCase()")
      ++ ".includes(" ++ Text.quote needle ++ ") : false)"

theorem render_eq (c : Clause) :
    c.render = "(" ++ renderField c.field ++ c.afterField := by
  cases c with
  | truthy _ | compare _ _ _ => simp only [render, afterField, field, String.append_assoc]
  | oneOf field _ | includes field _ | includesKey field _ _ | contains field _ _ =>
      simp only [render, renderGuarded, afterField, Clause.field, String.append_assoc]
      rfl

theorem toList_render (c : Clause) :
    c.render.toList = "(item.".toList ++ (c.field.text.toList ++ c.afterField.toList) := by
  simp [render_eq, renderField]

/-- Behind a field stands no character of a path. -/
theorem stops_afterField (c : Clause) (rest : List Char) :
    Stops FieldPath.isPathChar (c.afterField.toList ++ rest) := by
  cases c <;> simp only [afterField, String.toList_append, String.reduceToList, List.append_assoc,
    List.cons_append] <;> rfl

/-! ## Kinds of clauses -/

/-- Two clauses of one kind that test one field. -/
inductive SameKind : Clause → Clause → Prop where
  | truthy (field : FieldPath) : SameKind (truthy field) (truthy field)
  | compare (field : FieldPath) (op op' : Operator) (value value' : Operand) :
      SameKind (compare field op value) (compare field op' value')
  | oneOf (field : FieldPath) (candidates candidates' : List String) :
      SameKind (oneOf field candidates) (oneOf field candidates')
  | includes (field : FieldPath) (value value' : Operand) :
      SameKind (includes field value) (includes field value')
  | includesKey (field key key' : FieldPath) (value value' : Operand) :
      SameKind (includesKey field key value) (includesKey field key' value')
  | contains (field : FieldPath) (needle needle' : String) (b b' : Bool) :
      SameKind (contains field needle b) (contains field needle' b')

/-- The clause is no search for a part of a text in which case matters. -/
def isPlain : Clause → Bool
  | contains _ _ caseSensitive => !caseSensitive
  | _ => true

/-- What stands behind the field says of which kind a clause is. -/
theorem sameKind_of_afterField {c d : Clause} {r s : List Char} (hc : c.isPlain = true)
    (hd : d.isPlain = true) (hfield : c.field = d.field)
    (h : c.afterField.toList ++ r = d.afterField.toList ++ s) : SameKind c d := by
  have hop : ∀ (op : Operator) (r s : List Char), op.token.toList ++ r ≠ '?' :: s := by
    intro op r s
    cases op <;> simp [Operator.token]
  have hop' : ∀ (op : Operator) (r s : List Char), '?' :: s ≠ op.token.toList ++ r :=
    fun op r s => (hop op r s).symm
  cases c <;> cases d <;> simp only [isPlain, Clause.field, Bool.not_eq_true'] at hc hd hfield <;>
    subst hfield <;>
    -- Two kinds differ in a character behind the field, or behind its second mention.
    first
      | constructor
      | simp_all [afterField, renderField]

/-! ## Reading a clause -/

theorem field_mem_paths (c : Clause) : c.field ∈ c.paths := by
  cases c <;> simp [paths, Clause.field]

/-- The candidates are told from the bracket that follows them. -/
theorem unambiguous_candidates (xs ys : List String) :
    Unambiguous (fun xs : List String => (", ".intercalate (xs.map Text.quote)).toList) id
      (·.head? = some ']') xs ys := by
  intro r s hr hs h
  obtain ⟨r, rfl⟩ := List.head?_eq_some_iff.mp hr
  obtain ⟨s, rfl⟩ := List.head?_eq_some_iff.mp hs
  -- The text of some candidates begins with a quote, and so not with the bracket.
  have hquote : ∀ (z : String) (zs : List String) (rest : List Char), ∃ tail,
      (", ".intercalate ((z :: zs).map Text.quote)).toList ++ rest = '\'' :: tail := by
    intro z zs rest
    obtain ⟨tail, htail⟩ := Text.exists_intercalate_cons ", ".toList (Text.quote z).toList
      ((zs.map Text.quote).map String.toList)
    rw [String.toList_intercalate, List.map_cons, List.map_cons, htail, Text.toList_quote]
    exact ⟨_, rfl⟩
  cases xs with
  | nil =>
      cases ys with
      | nil => exact ⟨rfl, h⟩
      | cons y ys =>
          obtain ⟨tail, htail⟩ := hquote y ys (']' :: s)
          exact absurd (h.trans htail) (by simp)
  | cons x xs =>
      cases ys with
      | nil =>
          obtain ⟨tail, htail⟩ := hquote x xs (']' :: r)
          exact absurd (htail.symm.trans h) (by simp)
      | cons y ys =>
          simp only [String.toList_intercalate, List.map_map] at h
          have hread := Text.intercalate_append_inj (fun _ => trivial) trivial trivial
            (by simp) (by simp) (fun x _ y _ => unambiguous_quote x y) (by simp) (by simp) h
          simpa using hread

theorem unambiguous_of_isPlain {c d : Clause} (hc : c.isPlain = true) (hd : d.isPlain = true)
    (hcpaths : ∀ path ∈ c.paths, FieldPath.parseStrict path.text = .ok path)
    (hdpaths : ∀ path ∈ d.paths, FieldPath.parseStrict path.text = .ok path) :
    Unambiguous (fun c : Clause => c.render.toList) shown (fun _ => True) c d := by
  intro r s _ _ h
  simp only [toList_render, List.append_assoc, List.append_cancel_left_eq] at h
  obtain ⟨hfield, hbehind⟩ := FieldPath.unambiguous (hcpaths _ c.field_mem_paths)
    (hdpaths _ d.field_mem_paths) (c.stops_afterField r) (d.stops_afterField s) h
  have hkind := sameKind_of_afterField hc hd hfield hbehind
  cases hkind <;>
    simp only [afterField, String.toList_append, List.append_assoc, List.append_cancel_left_eq]
      at hbehind
  case truthy field => exact ⟨rfl, hbehind⟩
  case compare field op op' value value' =>
      obtain ⟨hop, hspace⟩ := Operator.unambiguous _ _ (by rfl) (by rfl) hbehind
      obtain ⟨hvalue, hend⟩ := Operand.unambiguous _ _ rfl rfl (List.append_cancel_left hspace)
      obtain rfl : op = op' := hop
      exact ⟨congrArg (ShownClause.compare field op) hvalue, List.append_cancel_left hend⟩
  case oneOf field candidates candidates' =>
      obtain ⟨hcandidates, hend⟩ := unambiguous_candidates _ _ rfl rfl hbehind
      simp only [List.append_cancel_left_eq] at hend
      exact ⟨congrArg (ShownClause.oneOf field) hcandidates, hend⟩
  case includes field value value' =>
      obtain ⟨hvalue, hend⟩ := Operand.unambiguous _ _ rfl rfl hbehind
      exact ⟨congrArg (ShownClause.includes field) hvalue, List.append_cancel_left hend⟩
  case includesKey field key key' value value' =>
      obtain ⟨hkey, hsign⟩ := FieldPath.unambiguous (hcpaths key (by simp [paths]))
        (hdpaths key' (by simp [paths])) (by rfl) (by rfl) hbehind
      obtain ⟨hvalue, hend⟩ := Operand.unambiguous _ _ rfl rfl (List.append_cancel_left hsign)
      obtain rfl : key = key' := hkey
      exact ⟨congrArg (ShownClause.includesKey field key) hvalue, List.append_cancel_left hend⟩
  case contains field needle needle' b b' =>
      obtain rfl : b = false := by simpa [isPlain] using hc
      obtain rfl : b' = false := by simpa [isPlain] using hd
      simp only [List.append_cancel_left_eq] at hbehind
      obtain ⟨hneedle, hend⟩ := unambiguous_quote _ _ trivial trivial hbehind
      exact ⟨congrArg (ShownClause.containsFolded field) hneedle, List.append_cancel_left hend⟩

/-- A clause with a search in which case matters replaced by the one that is shown alike. -/
def plain : Clause → Clause
  | contains field needle true => .includes field (.string needle)
  | c => c

theorem plain_spec (c : Clause) :
    c.plain.isPlain = true ∧ c.plain.render = c.render ∧ c.plain.shown = c.shown
      ∧ c.plain.paths = c.paths := by
  cases c with
  | contains field needle caseSensitive =>
      cases caseSensitive with
      | true =>
          have hrender : (includes field (.string needle)).render
              = (contains field needle true).render := by
            simp [render, Operand.render]
          exact ⟨rfl, hrender, rfl, rfl⟩
      | false => exact ⟨rfl, rfl, rfl, rfl⟩
  | _ => exact ⟨rfl, rfl, rfl, rfl⟩

/-- A clause whose paths are strict is told from whatever follows it. -/
theorem unambiguous {c d : Clause}
    (hcpaths : ∀ path ∈ c.paths, FieldPath.parseStrict path.text = .ok path)
    (hdpaths : ∀ path ∈ d.paths, FieldPath.parseStrict path.text = .ok path) :
    Unambiguous (fun c : Clause => c.render.toList) shown (fun _ => True) c d := by
  obtain ⟨hcplain, hcrender, hcshown, hcpaths'⟩ := c.plain_spec
  obtain ⟨hdplain, hdrender, hdshown, hdpaths'⟩ := d.plain_spec
  have hplain := unambiguous_of_isPlain hcplain hdplain (hcpaths'.symm ▸ hcpaths)
    (hdpaths'.symm ▸ hdpaths)
  rwa [Unambiguous, hcrender, hdrender, hcshown, hdshown] at hplain

end Clause

end RecordQuery
