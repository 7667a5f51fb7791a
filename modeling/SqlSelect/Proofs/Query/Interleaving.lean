import SqlSelect.Proofs.Query.Build
import SqlSelect.Sql.Text

/-!
# The order of conditions and sorts

A run of building steps sends its conditions to the end of the statement and its sort rules to the
front, so neither has a part in where the other ends up. The conditions of the result come in the
order of the calls and the sort rules call by call from the last to the first, each call keeping
the order of its own rules. Folding in between adds conditions, but it moves no sort rule.
-/

namespace SqlSelect

namespace BuildStep

/-- The conditions that the step adds itself, joins left aside. -/
def conditions : BuildStep → List Expr
  | filter predicate => [predicate]
  | _ => []

/-- Whether the step adds a condition. -/
def filters : BuildStep → Bool
  | filter _ => true
  | _ => false

/-- Whether the step sorts. -/
def sorts : BuildStep → Bool
  | sorted _ => true
  | sortedBy _ => true
  | _ => false

/-- A step that does not sort adds no sort rules. -/
theorem rules_eq_nil {step : BuildStep} (h : step.sorts = false) : step.rules = [] := by
  cases step with
  | sorted rule => cases h
  | sortedBy rules => cases h
  | _ => rfl

/-- A step that is no condition adds none. -/
theorem conditions_eq_nil {step : BuildStep} (h : step.filters = false) : step.conditions = [] := by
  cases step with
  | filter predicate => cases h
  | _ => rfl

/-- What only some steps add depends on these steps only. -/
theorem flatMap_filter {α : Type} {added : BuildStep → List α} {adds : BuildStep → Bool}
    (h : ∀ step, adds step = false → added step = []) (steps : List BuildStep) :
    (steps.filter adds).flatMap added = steps.flatMap added := by
  induction steps with
  | nil => rfl
  | cons step rest ih =>
    cases hadds : adds step with
    | true => rw [List.filter_cons_of_pos hadds, List.flatMap_cons, List.flatMap_cons, ih]
    | false =>
      rw [List.filter_cons_of_neg (by simp [hadds]), List.flatMap_cons, h step hadds, ih,
        List.nil_append]

end BuildStep

namespace Query

/-- A step that folds no joins adds its own conditions at the end. -/
theorem predicates_build {step : BuildStep} (h : step.folds = false) (query : Query) :
    (query.build step).predicates = query.predicates ++ step.conditions := by
  cases step with
  | filter predicate => rfl
  | foldJoins => cases h
  | sorted rule => exact (List.append_nil _).symm
  | sortedBy rules => exact (List.append_nil _).symm

/-- No run changes what is selected. -/
theorem results_built (query : Query) (steps : List BuildStep) :
    (query.built steps).results = query.results := by
  induction steps generalizing query with
  | nil => rfl
  | cons step rest ih =>
    calc (query.built (step :: rest)).results
        = (query.build step).results := ih (query.build step)
      _ = query.results := results_build query step

/-- The sort rules of a run stand in front, those of later steps ahead of those of earlier ones. -/
theorem order_built (query : Query) (steps : List BuildStep) :
    (query.built steps).order = steps.reverse.flatMap BuildStep.rules ++ query.order := by
  induction steps generalizing query with
  | nil => rfl
  | cons step rest ih =>
    calc (query.built (step :: rest)).order
        = rest.reverse.flatMap BuildStep.rules ++ (query.build step).order := ih (query.build step)
      _ = rest.reverse.flatMap BuildStep.rules ++ (step.rules ++ query.order) := by
          rw [order_build]
      _ = (step :: rest).reverse.flatMap BuildStep.rules ++ query.order := by
          simp only [List.reverse_cons, List.flatMap_append, List.flatMap_cons, List.flatMap_nil,
            List.append_nil, List.append_assoc]

/-- The conditions of a run that folds no joins stand at the end, in the order of the steps. -/
theorem predicates_built (query : Query) {steps : List BuildStep}
    (h : ∀ step ∈ steps, step.folds = false) :
    (query.built steps).predicates =
      query.predicates ++ steps.flatMap BuildStep.conditions := by
  induction steps generalizing query with
  | nil => exact (List.append_nil _).symm
  | cons step rest ih =>
    obtain ⟨hstep, hrest⟩ := List.forall_mem_cons.1 h
    calc (query.built (step :: rest)).predicates
        = (query.build step).predicates ++ rest.flatMap BuildStep.conditions :=
          ih (query.build step) hrest
      _ = query.predicates ++ (step :: rest).flatMap BuildStep.conditions := by
          rw [predicates_build hstep, List.append_assoc, List.flatMap_cons]

/-- After a run the last sort stands in front of all that was sorted by before it. -/
theorem order_built_of_last (query : Query) (early : List BuildStep) (last : BuildStep)
    {late : List BuildStep} (h : ∀ step ∈ late, step.sorts = false) :
    (query.built (early ++ last :: late)).order = last.rules ++ (query.built early).order := by
  have hlate : late.reverse.flatMap BuildStep.rules = [] := by
    refine List.flatMap_eq_nil_iff.2 fun step hstep => ?_
    exact BuildStep.rules_eq_nil (h step (List.mem_reverse.1 hstep))
  calc (query.built (early ++ last :: late)).order
      = (query.built early |>.built (last :: late)).order := by
        rw [built, List.foldl_append, ← built, ← built]
    _ = (last :: late).reverse.flatMap BuildStep.rules ++ (query.built early).order :=
        order_built _ _
    _ = last.rules ++ (query.built early).order := by
        rw [List.reverse_cons, List.flatMap_append, hlate, List.nil_append, List.flatMap_singleton]

/-- A statement is its items, its conditions and its sort rules. -/
theorem eq_of_parts : ∀ {left right : Query}, left.results = right.results →
    left.predicates = right.predicates → left.order = right.order → left = right
  | ⟨_, _, _⟩, ⟨_, _, _⟩, rfl, rfl, rfl => rfl

/-- Runs without folds that add the same conditions in one order and the same sorts in one order lead
to the same statement. -/
theorem built_congr (query : Query) {left right : List BuildStep}
    (hleft : ∀ step ∈ left, step.folds = false) (hright : ∀ step ∈ right, step.folds = false)
    (hfilters : left.filter BuildStep.filters = right.filter BuildStep.filters)
    (hsorts : left.filter BuildStep.sorts = right.filter BuildStep.sorts) :
    query.built left = query.built right := by
  have hconditions : left.flatMap BuildStep.conditions = right.flatMap BuildStep.conditions := by
    rw [← BuildStep.flatMap_filter (fun _ => BuildStep.conditions_eq_nil) left, hfilters,
      BuildStep.flatMap_filter fun _ => BuildStep.conditions_eq_nil]
  have hrules : left.reverse.flatMap BuildStep.rules = right.reverse.flatMap BuildStep.rules := by
    rw [← BuildStep.flatMap_filter (fun _ => BuildStep.rules_eq_nil) left.reverse,
      List.filter_reverse, hsorts, ← List.filter_reverse,
      BuildStep.flatMap_filter fun _ => BuildStep.rules_eq_nil]
  apply eq_of_parts
  · rw [results_built, results_built]
  · rw [predicates_built query hleft, predicates_built query hright, hconditions]
  · rw [order_built, order_built, hrules]

/-- The last of the statements of a run, if there is any, is the one after all steps. -/
theorem getLastD_stages (query : Query) (steps : List BuildStep) :
    (query.stages steps).getLastD query = query.built steps := by
  induction steps generalizing query with
  | nil => rfl
  | cons step rest ih =>
    rw [stages, List.getLastD_cons]
    exact ih (query.build step)

/-- The ORDER BY clause comes last, and without sort rules there is none. -/
theorem render_eq_clear_order (query : Query) :
    query.render =
      (query.clear .order).render ++
        clause " ORDER BY " "," (query.order.map SortRule.render) := by
  have hnone : clause " ORDER BY " "," [] = [] := if_pos rfl
  have hcleared : (query.clear .order).render =
      selectText query.tables (query.results.map Projection.render)
        (query.predicates.map Expr.render) [] := by
    rw [render_eq]
    rfl
  rw [hcleared, render_eq query]
  unfold selectText
  rw [hnone, List.append_nil]

/-- A statement that sorts is written like the one that does not, followed by the keyword and the first
sort rule. -/
theorem sql_of_order {query : Query} {rule : SortRule} {rules : List SortRule}
    (h : query.order = rule :: rules) :
    ∃ after, sql query = sql (query.clear .order) ++ " ORDER BY " ++ sql rule ++ after := by
  have hfirst : ∃ after, ",".toList.intercalate (query.order.map SortRule.render) =
      rule.render ++ after := by
    rw [h, List.map_cons]
    cases rules with
    | nil => exact ⟨[], by rw [List.map_nil, List.intercalate_singleton, List.append_nil]⟩
    | cons second others =>
      exact ⟨_, by rw [List.map_cons, List.intercalate_cons_cons, List.append_assoc]⟩
  obtain ⟨after, hafter⟩ := hfirst
  have hne : query.order.map SortRule.render ≠ [] := by rw [h]; exact List.cons_ne_nil _ _
  have hrender := render_eq_clear_order query
  rw [clause, if_neg hne, hafter, ← List.append_assoc, ← List.append_assoc] at hrender
  refine ⟨String.ofList after, String.toList_inj.1 ?_⟩
  simp only [sql, String.toList_append, String.toList_ofList]
  exact hrender

/-- What a run of conditions and sorts leads to depends on its conditions in order and its sorts in order
only: the items stay, the conditions come at the end in the order of the calls, and the sort rules come
in front, call by call from the last to the first. Where joins are folded in between makes no
difference for the sort rules. So runs without folds that interleave the same conditions and the same
sorts lead to the same statement and the same text, and the rules of the last sort come first. -/
theorem built_of_filters_and_sorts (query : Query) (steps : List BuildStep) :
    (query.run (steps.map BuildStep.toStep) = .ok (query.stages steps) ∧
      (query.stages steps).getLastD query = query.built steps) ∧
    (query.built steps).results = query.results ∧
    (query.built steps).order = steps.reverse.flatMap BuildStep.rules ++ query.order ∧
    ((∀ step ∈ steps, step.folds = false) →
      (query.built steps).predicates =
          query.predicates ++ steps.flatMap BuildStep.conditions ∧
        ∀ other : List BuildStep, (∀ step ∈ other, step.folds = false) →
          other.filter BuildStep.filters = steps.filter BuildStep.filters →
          other.filter BuildStep.sorts = steps.filter BuildStep.sorts →
            query.built other = query.built steps ∧
              sql (query.built other) = sql (query.built steps)) ∧
    ∀ (early late : List BuildStep) (last : BuildStep) (rule : SortRule) (rules : List SortRule),
      steps = early ++ last :: late → (∀ step ∈ late, step.sorts = false) →
      last.rules = rule :: rules →
        (query.built steps).order = rule :: rules ++ (query.built early).order ∧
          ∃ after, sql (query.built steps) =
            sql ((query.built steps).clear .order) ++ " ORDER BY " ++ sql rule ++ after := by
  refine ⟨⟨query.run_toStep steps, query.getLastD_stages steps⟩, query.results_built steps,
    query.order_built steps, fun hfolds => ⟨query.predicates_built hfolds, ?_⟩, ?_⟩
  · intro other hother hfilters hsorts
    have hsame := query.built_congr hother hfolds hfilters hsorts
    exact ⟨hsame, congrArg sql hsame⟩
  · rintro early late last rule rules rfl hlate hrules
    have horder := query.order_built_of_last early last hlate
    rw [hrules] at horder
    exact ⟨horder, sql_of_order horder⟩

/-- A block of sort rules between two conditions and the same block ahead of both lead to the same
statement, which sorts by the block before it sorts by the rule that it started with. -/
theorem built_of_interleaved_block :
    let rule (name : String) : SortRule := ⟨[⟨.column ⟨⟨"t"⟩, name⟩, .ascending⟩]⟩
    let condition (name : String) : Expr := .column ⟨⟨"t"⟩, name⟩
    let start : Query := (select [.wildcard ⟨"t"⟩]).sorted (rule "z")
    let block : BuildStep := .sortedBy [rule "a", rule "b"]
    let between : List BuildStep := [.filter (condition "p"), block, .filter (condition "q")]
    let ahead : List BuildStep := [block, .filter (condition "p"), .filter (condition "q")]
    (start.built between).predicates = [condition "p", condition "q"] ∧
      start.built ahead = start.built between ∧
      (start.built between).order = [rule "a", rule "b", rule "z"] ∧
      ∃ after, sql (start.built between) =
        sql ((start.built between).clear .order) ++ " ORDER BY " ++ sql (rule "a") ++ after := by
  intro rule condition start block between ahead
  have hbetween : ∀ step ∈ between, step.folds = false := by simp [between, block, BuildStep.folds]
  have hahead : ∀ step ∈ ahead, step.folds = false := by simp [ahead, block, BuildStep.folds]
  have hlate : ∀ step ∈ [BuildStep.filter (condition "q")], step.sorts = false := by
    simp [BuildStep.sorts]
  obtain ⟨-, -, -, hplain, hlast⟩ := built_of_filters_and_sorts start between
  obtain ⟨hpredicates, hother⟩ := hplain hbetween
  have hsorted := hlast [.filter (condition "p")] [.filter (condition "q")] block (rule "a")
    [rule "b"] rfl hlate rfl
  exact ⟨hpredicates, (hother ahead hahead rfl rfl).1, hsorted.1, hsorted.2⟩

end Query

end SqlSelect
