import RecordQuery.Clause.Basic

/-!
# Text of clauses

How a clause is shown: as a test of `item` in parentheses, in which a
search is guarded by the field itself.
-/

namespace RecordQuery.Clause

/-- A field as part of an item. -/
def renderField (field : FieldPath) : String :=
  "item." ++ field.text

/-- A test that only counts where the field counts as true. -/
def renderGuarded (field : FieldPath) (test : String) : String :=
  "(" ++ renderField field ++ " ? " ++ test ++ " : false)"

def render : Clause → String
  | truthy field => "(" ++ renderField field ++ ")"
  | compare field op value =>
    "(" ++ renderField field ++ " " ++ op.token ++ " " ++ value.render ++ ")"
  | oneOf field candidates =>
    renderGuarded field
      ("[" ++ ", ".intercalate (candidates.map Text.quote) ++ "].includes('' + "
        ++ renderField field ++ ")")
  | includes field value =>
    renderGuarded field (renderField field ++ ".includes(" ++ value.render ++ ")")
  | includesKey field key value =>
    renderGuarded field
      (renderField field ++ ".some(element => element." ++ key.text ++ " === " ++ value.render
        ++ ")")
  | contains field needle caseSensitive =>
    renderGuarded field
      (renderField field ++ (if caseSensitive then "" else ".toLowerCase()") ++ ".includes("
        ++ Text.quote needle ++ ")")

end RecordQuery.Clause
