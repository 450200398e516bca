import RecordQuery.Proofs.Query.Declarations

/-!
# Queries that can be built

Every query that declarations lead to, as one inductive predicate:
`Built admits q` if `q` begins empty or as the query of a spec and takes
declarations from there, under options that satisfy `admits` and so for
every query nested in it. A group may be given any query that is built,
not only one that a program builds on an empty query; the queries of
programs are a case (`Built.run`).

Taking everything back is no rule of its own, since it leaves the empty
query, and reading a stored query leaves the query of some spec.
-/

namespace RecordQuery

namespace Step

mutual

/-- The options that are given for stored queries read by the step. -/
def reloadOptions : Step → List Options
  | reload (some options) => [options]
  | group _ _ program => allReloadOptions program
  | keys _ _ | test _ _ | reset | reload none => []

def allReloadOptions : List Step → List Options
  | [] => []
  | step :: rest => step.reloadOptions ++ allReloadOptions rest

end

end Step

namespace Query

/-- The query can be built, and it and all queries inside it have options that are admitted. -/
inductive Built (admits : Options → Prop) : Query → Prop where
  | empty {options : Options} : admits options → Built admits (.empty options)
  | ofSpec (spec : Spec) {options : Options} :
      admits options → Built admits (ofSpec spec options)
  | addKey (role : KeyRole) (path : String) {q : Query} :
      Built admits q → Built admits (q.addKey role path)
  | addTest (link : Link) (test : Test) {q : Query} :
      Built admits q → Built admits (q.addTest link test)
  | addGroup (link : Link) (negated : Bool) {q inner : Query} :
      Built admits q → Built admits inner → Built admits (q.addGroup link negated inner)

namespace Built

variable {admits : Options → Prop}

/-- The options of a query are those that it was begun under. -/
theorem admits_options {q : Query} (h : Built admits q) : admits q.options := by
  induction h with
  | empty hoptions => exact hoptions
  | ofSpec spec hoptions => exact hoptions
  | addKey role path _ ih =>
      rw [options_addKey]
      exact ih
  | addTest link test _ ih =>
      rw [options_addTest]
      exact ih
  | addGroup link negated _ _ ih _ =>
      rw [options_addGroup]
      exact ih

theorem addKeys (role : KeyRole) :
    ∀ (paths : List String) {q : Query}, Built admits q → Built admits (q.addKeys role paths)
  | [], _, h => h
  | path :: rest, _, h => addKeys role rest (h.addKey role path)

/-- Taking everything back leaves the empty query. -/
theorem reset {q : Query} (h : Built admits q) : Built admits q.reset :=
  .empty h.admits_options

theorem reload {q : Query} (h : Built admits q) {options : Options}
    (hoptions : admits options) : Built admits ((q.reload options).getD q) := by
  unfold Query.reload
  cases Spec.ofJson? q.toSpec.toJson with
  | none => exact h
  | some spec => exact .ofSpec spec hoptions

/-! ## Programs build queries -/

mutual

theorem apply {q : Query} (h : Built admits q) :
    ∀ {step : Step}, (∀ options ∈ step.reloadOptions, admits options) →
      Built admits (q.apply step)
  | .keys role paths, _ => addKeys role paths h
  | .test link test, _ => h.addTest link test
  | .group link negated _, hprogram =>
      h.addGroup link negated (run (.empty h.admits_options) hprogram)
  | .reset, _ => h.reset
  | .reload none, _ => h.reload h.admits_options
  | .reload (some options), hoptions =>
      h.reload (hoptions options (List.mem_singleton.mpr rfl))

/-- A program builds a query if the options it names are admitted, and so are
those of the query it runs on. -/
theorem run {q : Query} (h : Built admits q) :
    ∀ {program : List Step}, (∀ options ∈ Step.allReloadOptions program, admits options) →
      Built admits (q.run program)
  | [], _ => h
  | step :: rest, hprogram => by
      have hstep : ∀ options ∈ step.reloadOptions, admits options := fun options hmem =>
        hprogram options (List.mem_append.mpr (Or.inl hmem))
      have hrest : ∀ options ∈ Step.allReloadOptions rest, admits options :=
        fun options hmem => hprogram options (List.mem_append.mpr (Or.inr hmem))
      exact (h.apply hstep).run hrest

end

end Built

end Query

end RecordQuery
