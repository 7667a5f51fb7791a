import SqlSelect.Proofs.Query.Joins
import SqlSelect.Proofs.Query.Validity
import SqlSelect.Query.Step

/-!
# Runs that build a statement

The steps that build on a statement add a condition, add sort rules or fold the joins. It makes no
difference how often and when joins are folded before the last time: the statement with the
intermediate folds extends the one without them by conditions of joins, and the last fold adds these to
the other one too. No step loses a table, and a step from a valid statement leads to a valid one
exactly if the rules that it adds sort by tables of the statement.
-/

namespace SqlSelect

/-- A step that builds on a statement. -/
inductive BuildStep where
  | filter (predicate : Expr)
  | sorted (rule : SortRule)
  | sortedBy (rules : List SortRule)
  | foldJoins

namespace BuildStep

/-- The step of a run. -/
def toStep : BuildStep → Query.Step
  | filter predicate => .filter predicate
  | sorted rule => .sorted rule
  | sortedBy rules => .sortedBy rules
  | foldJoins => .foldJoins

/-- Whether the step folds joins. -/
def folds : BuildStep → Bool
  | foldJoins => true
  | _ => false

/-- The sort rules that the step adds. -/
def rules : BuildStep → List SortRule
  | sorted rule => [rule]
  | sortedBy rules => rules
  | _ => []

end BuildStep

namespace Query

/-- The statement after a step. -/
def build (query : Query) : BuildStep → Query
  | .filter predicate => query.filter predicate
  | .sorted rule => query.sorted rule
  | .sortedBy rules => query.sortedBy rules
  | .foldJoins => query.foldJoins

/-- The statements after each of the steps. -/
def stages (query : Query) : List BuildStep → List Query
  | [] => []
  | step :: rest => query.build step :: (query.build step).stages rest

/-- The statement after all steps. -/
def built (query : Query) (steps : List BuildStep) : Query := steps.foldl build query

/-- A building step never fails. -/
theorem apply_toStep (query : Query) (step : BuildStep) :
    query.apply step.toStep = .ok (query.build step) := by
  cases step <;> rfl

/-- A run of building steps never fails. -/
theorem run_toStep (query : Query) (steps : List BuildStep) :
    query.run (steps.map BuildStep.toStep) = .ok (query.stages steps) := by
  induction steps generalizing query with
  | nil => rfl
  | cons step rest ih =>
    rw [List.map_cons, run, apply_toStep]
    simp only [Except.bind, ih]
    rfl

/-- The last of the statements of a run is the one after all steps. -/
theorem stages_concat (query : Query) (steps : List BuildStep) (last : BuildStep) :
    query.stages (steps ++ [last]) = query.stages steps ++ [(query.built steps).build last] := by
  induction steps generalizing query with
  | nil => rfl
  | cons step rest ih => rw [List.cons_append, stages, ih]; rfl

/-! ## Folding early, late or often -/

/-- Statements that differ at most in the places and the number of their conditions: the items, the sort
rules, the set of the conditions, the tables and the verdict are the same. -/
structure SameClauses (left right : Query) : Prop where
  results : left.results = right.results
  order : left.order = right.order
  predicates : ∀ condition, condition ∈ left.predicates ↔ condition ∈ right.predicates
  tables : left.tables = right.tables
  verdict : left.validate = right.validate

/-- The items, the sort rules and the set of the conditions decide over the tables and the verdict. -/
theorem SameClauses.of_parts {left right : Query} (hresults : left.results = right.results)
    (horder : left.order = right.order)
    (hpredicates : ∀ condition, condition ∈ left.predicates ↔ condition ∈ right.predicates) :
    SameClauses left right := by
  have htables : left.tables = right.tables :=
    tables_congr (fun result => by rw [hresults]) hpredicates
  have hverdict : left.validate = right.validate :=
    validate_congr (by rw [hresults]) htables (by rw [horder])
  exact ⟨hresults, horder, hpredicates, htables, hverdict⟩

/-- A step that folds no joins keeps a statement that extends another one by joins ahead of it. -/
theorem ExtendsByJoins.build {folded plain : Query} (h : ExtendsByJoins folded plain)
    (step : BuildStep) (hstep : step.folds = false) :
    ExtendsByJoins (folded.build step) (plain.build step) := by
  cases step with
  | filter predicate => exact h.filter predicate
  | sorted rule => exact h.sortedBy [rule]
  | sortedBy rules => exact h.sortedBy rules
  | foldJoins => cases hstep

/-- The statement after all steps extends the one after those that fold no joins by joins. -/
theorem ExtendsByJoins.built {folded plain : Query} (h : ExtendsByJoins folded plain)
    (steps : List BuildStep) :
    ExtendsByJoins (folded.built steps) (plain.built (steps.filter fun step => !step.folds)) := by
  -- A fold is a step of the first run only, so both statements vary and the relation carries over.
  induction steps generalizing folded plain with
  | nil => exact h
  | cons step rest ih =>
    cases hfolds : step.folds with
    | false =>
      rw [List.filter_cons_of_pos (by simp [hfolds])]
      exact ih (h.build step hfolds)
    | true =>
      rw [List.filter_cons_of_neg (by simp [hfolds])]
      cases step with
      | foldJoins => exact ih h.foldJoins
      | _ => cases hfolds

/-- Folding twice is folding once. -/
theorem foldJoins_foldJoins (query : Query) : query.foldJoins.foldJoins = query.foldJoins := by
  rw [foldJoins, missingJoins_foldJoins, List.append_nil]
  rfl

/-- Folding joins early, late or often makes no difference: folding twice is folding once, and a run
with folds at any places that ends with a fold leads to the same clauses as the run without them that
ends with a fold. -/
theorem foldJoins_at_any_time (query : Query) :
    query.foldJoins.foldJoins = query.foldJoins ∧
      ∀ steps : List BuildStep,
        ∃ (oftenStages onceStages : List Query) (often once : Query),
          query.run (steps.map BuildStep.toStep ++ [.foldJoins]) = .ok (oftenStages ++ [often]) ∧
          query.run ((steps.filter fun step => !step.folds).map BuildStep.toStep ++
            [.foldJoins]) = .ok (onceStages ++ [once]) ∧
          SameClauses often once := by
  refine ⟨query.foldJoins_foldJoins, fun steps => ?_⟩
  have hrun : ∀ steps : List BuildStep,
      query.run (steps.map BuildStep.toStep ++ [.foldJoins]) =
        .ok (query.stages steps ++ [(query.built steps).foldJoins]) := by
    intro steps
    have h := query.run_toStep (steps ++ [.foldJoins])
    rwa [List.map_append, stages_concat] at h
  refine ⟨_, _, _, _, hrun steps, hrun _, ?_⟩
  have hextends := (ExtendsByJoins.refl query).built steps
  exact .of_parts hextends.results hextends.order fun _ => hextends.mem_predicates_iff

/-! ## Tables and validity along a run -/

/-- No step loses a table. -/
theorem mem_tables_build {query : Query} {table : Table} (step : BuildStep)
    (h : table ∈ query.tables) : table ∈ (query.build step).tables := by
  cases step with
  | filter predicate => exact mem_tables_filter.2 (.inl h)
  | sorted rule => exact h
  | sortedBy rules => exact h
  | foldJoins => exact mem_tables_foldJoins.2 (.inl h)

/-- No later statement of a run loses a table of the first one. -/
theorem mem_tables_of_mem_stages {query state : Query} {table : Table} {steps : List BuildStep}
    (hstate : state ∈ query.stages steps) (h : table ∈ query.tables) : table ∈ state.tables := by
  induction steps generalizing query with
  | nil => cases hstate
  | cons step rest ih =>
    have hnext := mem_tables_build step h
    rcases List.mem_cons.1 hstate with rfl | hlater
    · exact hnext
    · exact ih hlater hnext

/-- No statement of a run loses a table of an earlier one. -/
theorem pairwise_tables_stages (query : Query) (steps : List BuildStep) :
    (query :: query.stages steps).Pairwise fun earlier later =>
      ∀ table ∈ earlier.tables, table ∈ later.tables := by
  induction steps generalizing query with
  | nil => exact List.pairwise_singleton _ _
  | cons step rest ih =>
    refine List.pairwise_cons.2 ⟨fun state hstate table htable => ?_, ih (query.build step)⟩
    exact mem_tables_of_mem_stages hstate htable

/-- After folding, no end of a join that is sorted by is missing. -/
theorem validate_foldJoins_ne {query : Query} {table : Table} (h : query.SortsByJoin table) :
    query.foldJoins.validate ≠ .error (.danglingOrderTable table) := by
  intro hdangling
  exact not_mem_tables_of_validate hdangling (mem_tables_foldJoins.2 (.inr h))

/-- A step adds sort rules in front of those of the statement. -/
theorem order_build (query : Query) (step : BuildStep) :
    (query.build step).order = step.rules ++ query.order := by
  cases step <;> rfl

theorem results_build (query : Query) (step : BuildStep) :
    (query.build step).results = query.results := by
  cases step <;> rfl

/-- A step that adds sort rules leaves the tables as they are. -/
theorem tables_build_of_rules {query : Query} {step : BuildStep} (h : step.rules ≠ []) :
    (query.build step).tables = query.tables := by
  cases step with
  | sorted rule => rfl
  | sortedBy rules => rfl
  | _ => exact absurd rfl h

/-- The rules that a step adds sort by tables of the statement only. -/
def SortsWithin (query : Query) (step : BuildStep) : Prop :=
  ∀ rule ∈ step.rules, ∀ table ∈ rule.tables, table ∈ query.tables

/-- A step from a valid statement leads to a valid one exactly if it sorts by tables of the statement. -/
theorem validate_build_iff {query : Query} (h : query.validate = .ok ()) (step : BuildStep) :
    (query.build step).validate = .ok () ↔ query.SortsWithin step := by
  obtain ⟨hresults, horder⟩ := validate_eq_ok_iff.1 h
  rw [validate_eq_ok_iff, results_build, order_build]
  constructor
  · intro hbuild rule hrule table htable
    have hmem := hbuild.2 rule (List.mem_append_left _ hrule) table htable
    rwa [tables_build_of_rules (List.ne_nil_of_mem hrule)] at hmem
  · intro hwithin
    refine ⟨hresults, fun rule hrule table htable => mem_tables_build step ?_⟩
    rcases List.mem_append.1 hrule with hadded | hbefore
    · exact hwithin rule hadded table htable
    · exact horder rule hbefore table htable

/-- Every step of a run sorts by tables of the statement that it builds on. -/
def RunSortsWithin (query : Query) : List BuildStep → Prop
  | [] => True
  | step :: rest => query.SortsWithin step ∧ (query.build step).RunSortsWithin rest

/-- The statements of a run from a valid one are all valid exactly if every step sorts by tables of the
statement that it builds on. -/
theorem validate_stages_iff {query : Query} (h : query.validate = .ok ())
    (steps : List BuildStep) :
    (∀ state ∈ query.stages steps, state.validate = .ok ()) ↔ query.RunSortsWithin steps := by
  induction steps generalizing query with
  | nil => simp [stages, RunSortsWithin]
  | cons step rest ih =>
    rw [stages, List.forall_mem_cons, RunSortsWithin, validate_build_iff h]
    exact and_congr_right fun hwithin => ih ((validate_build_iff h step).2 hwithin)

/-- Along a run of building steps no table is lost; folding adds exactly the ends of the joins that are
sorted by, so that none of them is missing afterwards; and a valid statement stays valid at every
stage exactly if each step sorts by tables of the statement that it builds on, which every condition
and every fold does. -/
theorem validity_kept_along_runs (query : Query) (steps : List BuildStep) :
    query.run (steps.map BuildStep.toStep) = .ok (query.stages steps) ∧
      ((query :: query.stages steps).Pairwise fun earlier later =>
        ∀ table ∈ earlier.tables, table ∈ later.tables) ∧
      (∀ table, table ∈ query.foldJoins.tables ↔
        table ∈ query.tables ∨ query.SortsByJoin table) ∧
      (∀ table, query.SortsByJoin table →
        query.foldJoins.validate ≠ .error (.danglingOrderTable table)) ∧
      (∀ predicate, query.SortsWithin (.filter predicate)) ∧ query.SortsWithin .foldJoins ∧
      (query.validate = .ok () →
        ((∀ state ∈ query.stages steps, state.validate = .ok ()) ↔
          query.RunSortsWithin steps)) := by
  refine ⟨query.run_toStep steps, query.pairwise_tables_stages steps,
    fun _ => mem_tables_foldJoins, fun _ => validate_foldJoins_ne, fun predicate => ?_, ?_,
    fun h => validate_stages_iff h steps⟩
  · exact List.forall_mem_nil _
  · exact List.forall_mem_nil _

/-- A run that joins a table in a condition, folds and then sorts by the joined table stays valid. A sort
by a join whose other table is missing is not valid, but folding supplies the table. -/
theorem validity_kept_of_joined_table :
    let joined : Expr := .join ⟨⟨"t"⟩, "a"⟩ ⟨⟨"u"⟩, "b"⟩ (.column ⟨⟨"t"⟩, "a"⟩)
    let start : Query := select [.wildcard ⟨"t"⟩]
    let steps : List BuildStep :=
      [.filter joined, .foldJoins, .sorted ⟨[⟨.column ⟨⟨"u"⟩, "c"⟩, .descending⟩]⟩]
    let byJoin : Query := start.sorted ⟨[⟨joined, .ascending⟩]⟩
    (start.validate = .ok () ∧ start.RunSortsWithin steps ∧
      ∀ state ∈ start.stages steps, state.validate = .ok ()) ∧
    byJoin.validate = .error (.danglingOrderTable ⟨"u"⟩) ∧ byJoin.SortsByJoin ⟨"u"⟩ ∧
      byJoin.foldJoins.validate ≠ .error (.danglingOrderTable ⟨"u"⟩) := by
  intro joined start steps byJoin
  have hvalid : start.validate = .ok () := rfl
  have hwithin : start.RunSortsWithin steps := by
    refine ⟨List.forall_mem_nil _, List.forall_mem_nil _, ?_, trivial⟩
    intro rule hrule table htable
    obtain rfl := List.mem_singleton.1 hrule
    have hu : table = ⟨"u"⟩ := List.mem_singleton.1 htable
    rw [hu]
    decide +kernel
  have hjoin : byJoin.SortsByJoin ⟨"u"⟩ :=
    ⟨_, List.mem_singleton_self _, joined, List.mem_singleton_self _, _, _, _, .self, .inr rfl⟩
  have hstart := validity_kept_along_runs start steps
  have hsorted := validity_kept_along_runs byJoin []
  refine ⟨⟨hvalid, hwithin, (hstart.2.2.2.2.2.2 hvalid).2 hwithin⟩, rfl, hjoin, ?_⟩
  exact hsorted.2.2.2.1 _ hjoin

end Query

end SqlSelect
