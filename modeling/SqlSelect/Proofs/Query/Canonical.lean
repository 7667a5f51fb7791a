import Mathlib.Data.List.Basic
import SqlSelect.Proofs.Query.Joins
import SqlSelect.Proofs.Query.Validity
import SqlSelect.Proofs.Tree.Canonical
import SqlSelect.Proofs.Tree.Hole

/-!
# What a canonical statement shares

The payload of a NaN shows nowhere but in the tree itself. A statement and its canonical form have the
same tables, the same joins, the same verdict and the same text, and every operation on statements
leads from canonical forms to the canonical form of its result. Folding joins compares conditions for
equality, payloads included, but what it looks for are conditions of joins, which hold no literal.
-/

namespace SqlSelect

/-! ## Nodes, tables and joins -/

namespace Expr

/-- The nodes of a canonical expression are the canonical nodes. -/
theorem nodes_canonical (e : Expr) : e.canonical.nodes = e.nodes.map canonical := by
  have steps : TreeInduction (fun e => e.canonical.nodes = e.nodes.map canonical) (fun _ => True) :=
    { binary := fun hleft hright => by
        simp only [canonical, nodes, hleft, hright, List.map_cons, List.map_append]
      unary := fun hoperand => by simp only [canonical, nodes, hoperand, List.map_cons]
      column := fun _ => rfl
      literal := fun _ => rfl
      call := fun {function args} hargs => by
        have hflat : (args.map canonical).flatMap nodes = (args.flatMap nodes).map canonical := by
          rw [List.flatMap_map, List.map_flatMap]
          exact List.flatMap_congr hargs
        rw [canonical_call, nodes_call, nodes_call, hflat, List.map_cons, canonical_call]
      inList := fun helement => by simp only [canonical, nodes, helement, List.map_cons]
      join := fun hcarrier => by simp only [canonical, nodes, hcarrier, List.map_cons]
      existsRow := fun _ => rfl
      query := fun _ => trivial }
  exact steps.expr e

/-- A node mentions and states by itself what its canonical form does. -/
theorem marks_canonical (e : Expr) : e.canonical.marks = e.marks := by
  cases e <;> simp only [canonical] <;> rfl

theorem map_marks_canonical (e : Expr) :
    e.canonical.nodes.map marks = e.nodes.map marks := by
  rw [nodes_canonical]
  exact map_map_canonical fun node _ => node.marks_canonical

@[simp] theorem tables_canonical (e : Expr) : e.canonical.tables = e.tables :=
  tables_congr e.map_marks_canonical

@[simp] theorem joins_canonical (e : Expr) : e.canonical.joins = e.joins :=
  joins_congr e.map_marks_canonical

/-- Conditions of joins hold no literal, so they are the canonical form of themselves only. -/
theorem canonical_eq_joinCondition_iff {e : Expr} {left right : Column} :
    e.canonical = joinCondition left right ↔ e = joinCondition left right := by
  have hcolumn : ∀ {operand : Expr} {c : Column}, operand.canonical = column c → operand = column c := by
    intro operand c h
    cases operand <;> simp [canonical] at h ⊢
    exact h
  constructor
  · intro h
    cases e <;> simp only [canonical, joinCondition, reduceCtorEq, binary.injEq] at h ⊢
    exact ⟨h.1, hcolumn h.2.1, hcolumn h.2.2⟩
  · rintro rfl
    rfl

end Expr

/-! ## Statements -/

theorem Projection.tables_canonical (result : Projection) :
    result.canonical.tables = result.tables := by
  cases result <;> simp [Projection.canonical, Projection.tables]

theorem Projection.expression?_canonical (result : Projection) :
    result.canonical.expression? = result.expression?.map Expr.canonical := by
  cases result <;> rfl

theorem SortKey.expression_canonical (key : SortKey) :
    key.canonical.expression = key.expression.canonical := by
  cases key
  rw [SortKey.canonical]

theorem SortRule.expressions_canonical (rule : SortRule) :
    rule.canonical.expressions = rule.expressions.map Expr.canonical := by
  rw [SortRule.canonical_eq, SortRule.expressions, SortRule.expressions, List.map_map, List.map_map]
  exact List.map_congr_left fun key _ => key.expression_canonical

theorem SortRule.tables_canonical (rule : SortRule) : rule.canonical.tables = rule.tables := by
  rw [SortRule.tables, SortRule.tables, SortRule.expressions_canonical,
    map_map_canonical fun e _ => e.tables_canonical]

namespace Query

variable (query : Query)

@[simp] theorem results_canonical :
    query.canonical.results = query.results.map Projection.canonical := by
  rw [canonical_eq]

@[simp] theorem predicates_canonical :
    query.canonical.predicates = query.predicates.map Expr.canonical := by
  rw [canonical_eq]

@[simp] theorem order_canonical : query.canonical.order = query.order.map SortRule.canonical := by
  rw [canonical_eq]

/-- The expressions of a canonical statement are the canonical expressions. -/
theorem expressions_canonical :
    query.canonical.expressions = query.expressions.map Expr.canonical := by
  have hresults : (query.results.map Projection.canonical).filterMap Projection.expression? =
      (query.results.filterMap Projection.expression?).map Expr.canonical := by
    rw [List.filterMap_map, List.map_filterMap]
    exact List.filterMap_congr fun result _ => result.expression?_canonical
  have horder : (query.order.map SortRule.canonical).flatMap SortRule.expressions =
      (query.order.flatMap SortRule.expressions).map Expr.canonical := by
    rw [List.flatMap_map, List.map_flatMap]
    exact List.flatMap_congr fun rule _ => rule.expressions_canonical
  simp only [expressions, results_canonical, predicates_canonical, order_canonical, hresults,
    horder, List.map_append]

@[simp] theorem tables_canonical : query.canonical.tables = query.tables := by
  rw [tables, tables, results_canonical, predicates_canonical,
    map_map_canonical fun result _ => result.tables_canonical,
    map_map_canonical fun e _ => e.tables_canonical]

/-- The verdict on a statement is that on its canonical form. -/
theorem validate_canonical : query.canonical.validate = query.validate := by
  apply validate_congr
  · rw [results_canonical, List.map_eq_nil_iff]
  · exact query.tables_canonical
  · rw [order_canonical]
    exact map_map_canonical fun rule _ => rule.tables_canonical

/-- Folding joins misses the same ones in the canonical form. -/
theorem missingJoins_canonical : query.canonical.missingJoins = query.missingJoins := by
  have hjoins : query.expressions.map Expr.joins = query.canonical.expressions.map Expr.joins := by
    rw [expressions_canonical]
    exact (map_map_canonical fun e _ => e.joins_canonical).symm
  refine (missingJoins_congr hjoins fun condition hcarries => ?_).symm
  obtain ⟨left, right, rfl⟩ := hcarries.eq_joinCondition
  rw [predicates_canonical, List.mem_map]
  constructor
  · exact fun h => ⟨_, h, Expr.canonical_eq_joinCondition_iff.2 rfl⟩
  · intro h
    obtain ⟨e, he, hcanonical⟩ := h
    exact Expr.canonical_eq_joinCondition_iff.1 hcanonical ▸ he

/-! ## Operations -/

theorem canonical_filter (predicate : Expr) :
    (query.filter predicate).canonical = query.canonical.filter predicate.canonical := by
  simp only [canonical_eq, filter, List.map_append, List.map_cons, List.map_nil]

theorem canonical_sortedBy (rules : List SortRule) :
    (query.sortedBy rules).canonical =
      query.canonical.sortedBy (rules.map SortRule.canonical) := by
  simp only [canonical_eq, sortedBy, List.map_append]

theorem canonical_appendResult (result : Projection) :
    (query.appendResult result).canonical = query.canonical.appendResult result.canonical := by
  simp only [canonical_eq, appendResult, List.map_append, List.map_cons, List.map_nil]

theorem canonical_clear (part : Part) : (query.clear part).canonical = query.canonical.clear part := by
  cases part <;> simp only [canonical_eq, clear, List.map_nil]

theorem canonical_nest (results : List Projection) :
    (query.nest results).canonical = query.canonical.nest (results.map Projection.canonical) := by
  have hexists : (Expr.existsRow query).canonical = .existsRow query.canonical := by
    rw [Expr.canonical]
  rw [nest, canonical_filter, hexists, canonical_eq (select results)]
  rfl

theorem canonical_nestNot (results : List Projection) :
    (query.nestNot results).canonical =
      query.canonical.nestNot (results.map Projection.canonical) := by
  have hnone : (Expr.negated (.existsRow query)).canonical =
      Expr.negated (.existsRow query.canonical) := by
    rw [Expr.negated, Expr.canonical, Expr.canonical, Expr.negated]
  rw [nestNot, canonical_filter, hnone, canonical_eq (select results)]
  rfl

/-- Folding the joins of the canonical form gives the canonical form of the folded statement. -/
theorem canonical_foldJoins : query.foldJoins.canonical = query.canonical.foldJoins := by
  have hmissing : query.missingJoins.map Expr.canonical = query.missingJoins := by
    refine map_eq_self_iff.2 fun condition hcondition => ?_
    obtain ⟨left, right, rfl⟩ := Carries.eq_joinCondition (mem_missingJoins.1 hcondition).1
    exact Expr.canonical_eq_joinCondition_iff.2 rfl
  rw [foldJoins, foldJoins, missingJoins_canonical, canonical_eq, canonical_eq query, List.map_append,
    hmissing]

end Query

/-! ## Text -/

theorem Literal.render_canonical (value : Literal) : value.canonical.render = value.render := by
  cases value with
  | real x =>
    rw [Literal.canonical, Literal.render, Literal.render]
    unfold Binary64.canonical
    split
    · next hnan => rw [realText, realText, if_pos hnan, if_pos (by decide)]
    · rfl
  | _ => rfl

theorem Projection.render_canonical {result : Projection}
    (h : ∀ e ∈ result.expression?, e.canonical.render = e.render) :
    result.canonical.render = result.render := by
  cases result with
  | expr expression =>
    rw [Projection.canonical, Projection.render, Projection.render, h expression rfl]
  | aliased expression label =>
    rw [Projection.canonical, Projection.render, Projection.render, h expression rfl]
  | wildcard table => rfl

theorem SortRule.render_canonical {rule : SortRule}
    (h : ∀ key ∈ rule.orderings, key.expression.canonical.render = key.expression.render) :
    rule.canonical.render = rule.render := by
  have hkey : ∀ key ∈ rule.orderings, key.canonical.render = key.render := by
    intro key hkey
    have hexpression := h key hkey
    obtain ⟨expression, direction⟩ := key
    rw [SortKey.canonical, SortKey.render, SortKey.render, hexpression]
  rw [SortRule.canonical_eq, SortRule.render_eq, SortRule.render_eq, map_map_canonical hkey]

/-- The steps by which canonical trees have the same text. -/
theorem render_steps :
    TreeInduction (fun e => e.canonical.render = e.render)
      (fun query => query.canonical.render = query.render) where
  binary hleft hright := by rw [Expr.canonical, Expr.render, Expr.render, hleft, hright]
  unary hoperand := by rw [Expr.canonical, Expr.render, Expr.render, hoperand]
  column c := rfl
  literal value := by rw [Expr.canonical, Expr.render, Expr.render, value.render_canonical]
  call hargs := by
    rw [Expr.canonical_call, Expr.render_call, Expr.render_call, map_map_canonical hargs]
  inList helement := by
    rw [Expr.canonical, Expr.render, Expr.render, inListText, inListText, helement,
      map_map_canonical fun value _ => value.render_canonical]
  join hcarrier := by rw [Expr.canonical, Expr.render, Expr.render, hcarrier]
  existsRow hquery := by rw [Expr.canonical, Expr.render, Expr.render, hquery]
  query {query} h := by
    have hresults := map_map_canonical fun result (hresult : result ∈ query.results) =>
      Projection.render_canonical fun e he => h e (mem_expressions_of_mem_results hresult he)
    have hpredicates := map_map_canonical fun e (he : e ∈ query.predicates) =>
      h e (mem_expressions_of_mem_predicates he)
    have horder := map_map_canonical fun rule (hrule : rule ∈ query.order) =>
      SortRule.render_canonical fun key hkey =>
        h key.expression (mem_expressions_of_mem_orderings hrule hkey)
    rw [Query.render_eq, Query.render_eq query, Query.tables_canonical, Query.results_canonical,
      Query.predicates_canonical, Query.order_canonical, hresults, hpredicates, horder]

/-- A statement and its canonical form have the same text. -/
theorem Query.sql_canonical (query : Query) : sql query.canonical = sql query :=
  congrArg String.ofList (render_steps.statement query)

end SqlSelect
