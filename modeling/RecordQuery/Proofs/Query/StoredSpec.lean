import RecordQuery.Proofs.Clause.Restored
import RecordQuery.Proofs.Expr.Clauses
import RecordQuery.Query.Spec

/-!
# Specs that come back from storage

A spec is stored as a document and read again. Reading never fails on
what was written (`Spec.ofJson?_toJson`), and what is read is the spec
with its clauses `restored` one by one: its tree, its paths and its keys
are as they were, and the clauses change in the three ways that
`Clause.restored` names.
-/

namespace RecordQuery

namespace Expr

mutual

theorem ofJson?_toJson : ∀ e : Expr, ofJson? e.toJson = some (e.mapClauses Clause.restored)
  | literal _ => rfl
  | clause c => by
      simp only [toJson, ofJson?, String.reduceEq, if_false, if_true, Clause.ofJson?_toJson,
        Option.map_some, mapClauses]
  | not operand => by
      simp only [toJson, ofJson?, String.reduceEq, if_false, if_true, ofJson?_toJson operand,
        Option.map_some, mapClauses]
  | group connective members => by
      cases connective <;>
        simp only [toJson, groupName, ofJson?, String.reduceEq, if_false, if_true, membersOfJson?,
          ofJsonAll?_toJsonAll members, Option.map_some, mapClauses]

theorem ofJsonAll?_toJsonAll :
    ∀ es : List Expr, ofJsonAll? (toJsonAll es) = some (mapClausesOfAll Clause.restored es)
  | [] => rfl
  | e :: rest => by
      rw [toJsonAll, ofJsonAll?, ofJson?_toJson e, ofJsonAll?_toJsonAll rest, mapClausesOfAll]
      rfl

end

end Expr

namespace Query.Spec

/-- The spec that is read where a spec was stored. -/
def restored (spec : Spec) : Spec :=
  { spec with filter := spec.filter.mapClauses Clause.restored }

/-- Reading what was stored. -/
theorem ofJson?_toJson (spec : Spec) : ofJson? spec.toJson = some spec.restored := by
  have hpaths : ∀ paths : List FieldPath,
      Json.listOf? FieldPath.ofJson? (pathsToJson paths) = some paths :=
    Json.listOf?_map FieldPath.ofJson?_toJson
  rw [ofJson?, toJson, Json.fields?_ofList (by simp)]
  simp [List.lookup_cons, Json.optional, hpaths, Expr.ofJson?_toJson, restored]

/-- **Stored specs come back.** Every spec is read from where it was stored, with
no more changed than its clauses, each in the way of `Clause.restored`, which
changes nothing when it is done again. If no operand lacks a numeral and no
needle that ignores case has a capital, then the condition says of every record
what it said, and is shown as it was. -/
theorem ofJson?_toJson_restored :
    (∀ spec : Spec, ofJson? spec.toJson = some spec.restored)
    ∧ (∀ spec : Spec, spec.restored.restored = spec.restored)
    ∧ ∀ spec : Spec, (∀ c ∈ spec.filter.clauses, c.IsSettled) →
      (∀ record : Json, spec.restored.filter.eval record = spec.filter.eval record)
      ∧ spec.restored.filter.render = spec.filter.render := by
  refine ⟨ofJson?_toJson, fun spec => ?_, fun spec h => ⟨fun record => ?_, ?_⟩⟩
  · rw [restored, restored, Expr.mapClauses_mapClauses fun c _ => c.restored_restored]
  · exact Expr.eval_mapClauses fun c hc => (h c hc).matchesRecord_restored record
  · exact Expr.render_mapClauses fun c hc => (h c hc).render_restored

/-- An operand that loses its unsigned form, an empty group and a key named twice. -/
theorem ofJson?_toJson_restored_unsigned :
    let spec : Spec :=
      { filter := .any [.all [], .not (.clause (.compare ⟨"n"⟩ .lt (.number (.unsigned 7)))),
          .clause (.contains ⟨"title"⟩ "é" false)]
        keys := { sort := [⟨"id"⟩, ⟨"id"⟩] } }
    let read : Spec :=
      { spec with
        filter := .any [.all [], .not (.clause (.compare ⟨"n"⟩ .lt (.number (.signed 7)))),
          .clause (.contains ⟨"title"⟩ "é" false)] }
    (∀ c ∈ spec.filter.clauses, c.IsSettled)
    ∧ ofJson? spec.toJson = some read ∧ read.restored = read
    ∧ (∀ record, read.filter.eval record = spec.filter.eval record)
    ∧ read.filter.render = spec.filter.render := by
  intro spec read
  have hneedle : Text.lowercase "é" = "é" := by decide +kernel
  have hsettled : ∀ c ∈ spec.filter.clauses, c.IsSettled := by
    intro c hc
    have hc : c = .compare ⟨"n"⟩ .lt (.number (.unsigned 7))
        ∨ c = .contains ⟨"title"⟩ "é" false := by
      simpa [spec, Expr.any, Expr.all, Expr.clauses, Expr.clausesOfAll] using hc
    rcases hc with rfl | rfl
    · rfl
    · exact hneedle
  have hread : spec.restored = read := by
    simp only [spec, read, restored, Expr.any, Expr.all, Expr.mapClauses, Expr.mapClausesOfAll,
      Clause.restored, Clause.ofNeedle, hneedle]
    rfl
  obtain ⟨hback, htwice, hmeaning⟩ := ofJson?_toJson_restored
  refine ⟨hsettled, ?_, ?_, ?_⟩
  · rw [hback, hread]
  · rw [← hread, htwice]
  · rw [← hread]
    exact hmeaning spec hsettled

end Query.Spec

end RecordQuery
