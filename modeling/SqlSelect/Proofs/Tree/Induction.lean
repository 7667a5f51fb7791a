import SqlSelect.Tree.Nodes

/-!
# Induction on trees

Expressions and statements are declared together and hold lists of each other, so an induction on
them runs over all of these lists at once. Here it is packed into one step for each node of an
expression and one for statements. What is assumed of a statement is that the property holds for
every expression that it selects, tests or sorts by. Where only statements matter, a second induction
runs over the nesting of statements in each other.
-/

namespace SqlSelect

/-- The steps of an induction on expressions and statements. -/
structure TreeInduction (onExpr : Expr → Prop) (onQuery : Query → Prop) : Prop where
  binary {op : BinaryOp} {left right : Expr} (hleft : onExpr left) (hright : onExpr right) :
    onExpr (.binary op left right)
  unary {op : UnaryOp} {operand : Expr} (hoperand : onExpr operand) : onExpr (.unary op operand)
  column (c : Column) : onExpr (.column c)
  literal (value : Literal) : onExpr (.literal value)
  call {function : FunctionName} {args : List Expr} (hargs : ∀ arg ∈ args, onExpr arg) :
    onExpr (.call function args)
  inList {element : Expr} {values : List Literal} (helement : onExpr element) :
    onExpr (.inList element values)
  join {left right : Column} {carrier : Expr} (hcarrier : onExpr carrier) :
    onExpr (.join left right carrier)
  existsRow {query : Query} (hquery : onQuery query) : onExpr (.existsRow query)
  query {query : Query} (hexpressions : ∀ e ∈ query.expressions, onExpr e) : onQuery query

namespace TreeInduction

variable {onExpr : Expr → Prop} {onQuery : Query → Prop}

mutual

/-- What the steps keep holds for every expression. -/
theorem expr (step : TreeInduction onExpr onQuery) : (e : Expr) → onExpr e
  | .binary _ left right => step.binary (step.expr left) (step.expr right)
  | .unary _ operand => step.unary (step.expr operand)
  | .column c => step.column c
  | .literal value => step.literal value
  | .call _ args => step.call (step.exprs args)
  | .inList element _ => step.inList (step.expr element)
  | .join _ _ carrier => step.join (step.expr carrier)
  | .existsRow query => step.existsRow (step.statement query)

/-- It holds for every member of a list of expressions. -/
theorem exprs (step : TreeInduction onExpr onQuery) :
    (expressions : List Expr) → ∀ e ∈ expressions, onExpr e
  | [], _, h => absurd h List.not_mem_nil
  | first :: rest, e, h => by
    rcases List.mem_cons.1 h with he | h
    · exact he ▸ step.expr first
    · exact step.exprs rest e h

/-- It holds for what an item of a SELECT list selects. -/
theorem projection (step : TreeInduction onExpr onQuery) :
    (result : Projection) → ∀ e ∈ result.expression?, onExpr e
  | .expr expression, _, h => Option.some.inj h ▸ step.expr expression
  | .aliased expression _, _, h => Option.some.inj h ▸ step.expr expression
  | .wildcard _, _, h => by cases h

/-- It holds for what a list of items selects. -/
theorem projections (step : TreeInduction onExpr onQuery) :
    (results : List Projection) → ∀ e ∈ results.filterMap Projection.expression?, onExpr e
  | [], _, h => absurd h List.not_mem_nil
  | first :: rest, e, h => by
    obtain ⟨result, hresult, he⟩ := List.mem_filterMap.1 h
    rcases List.mem_cons.1 hresult with hfirst | hresult
    · exact step.projection first e (hfirst ▸ he)
    · exact step.projections rest e (List.mem_filterMap.2 ⟨result, hresult, he⟩)

/-- It holds for the expression of a sort key. -/
theorem sortKey (step : TreeInduction onExpr onQuery) : (key : SortKey) → onExpr key.expression
  | ⟨expression, _⟩ => step.expr expression

/-- It holds for the expressions of several sort keys. -/
theorem sortKeys (step : TreeInduction onExpr onQuery) :
    (keys : List SortKey) → ∀ key ∈ keys, onExpr key.expression
  | [], _, h => absurd h List.not_mem_nil
  | first :: rest, key, h => by
    rcases List.mem_cons.1 h with hkey | h
    · exact hkey ▸ step.sortKey first
    · exact step.sortKeys rest key h

/-- It holds for the expressions of a sort rule. -/
theorem sortRule (step : TreeInduction onExpr onQuery) :
    (rule : SortRule) → ∀ key ∈ rule.orderings, onExpr key.expression
  | ⟨orderings⟩ => step.sortKeys orderings

/-- It holds for the expressions of several sort rules. -/
theorem sortRules (step : TreeInduction onExpr onQuery) :
    (rules : List SortRule) → ∀ rule ∈ rules, ∀ key ∈ rule.orderings, onExpr key.expression
  | [], _, h => absurd h List.not_mem_nil
  | first :: rest, rule, h => by
    rcases List.mem_cons.1 h with hrule | h
    · exact hrule ▸ step.sortRule first
    · exact step.sortRules rest rule h

/-- What the steps keep holds for every statement. -/
theorem statement (step : TreeInduction onExpr onQuery) : (query : Query) → onQuery query
  | ⟨results, predicates, order⟩ => step.query fun e h => by
    simp only [Query.expressions, List.mem_append, or_assoc] at h
    rcases h with h | h | h
    · exact step.projections results e h
    · exact step.exprs predicates e h
    · obtain ⟨rule, hrule, he⟩ := List.mem_flatMap.1 h
      obtain ⟨key, hkey, rfl⟩ := List.mem_map.1 he
      exact step.sortRules order rule hrule key hkey

end

end TreeInduction

/-- A property of statements that is inherited from the statements directly nested in one holds for
every statement. -/
theorem Query.nested_induction {p : Query → Prop}
    (step : ∀ query : Query,
      (∀ e ∈ query.expressions, ∀ inner, Expr.existsRow inner ∈ e.nodes → p inner) → p query)
    (query : Query) : p query := by
  have steps : TreeInduction (fun e => ∀ inner, Expr.existsRow inner ∈ e.nodes → p inner) p :=
    { binary := fun hleft hright inner h => by
        simp only [Expr.nodes, List.mem_cons, List.mem_append, reduceCtorEq, false_or] at h
        exact h.elim (hleft inner) (hright inner)
      unary := fun hoperand inner h => by
        simp only [Expr.nodes, List.mem_cons, reduceCtorEq, false_or] at h
        exact hoperand inner h
      column := fun c inner h => by simp [Expr.nodes] at h
      literal := fun value inner h => by simp [Expr.nodes] at h
      call := fun hargs inner h => by
        simp only [Expr.nodes_call, List.mem_cons, reduceCtorEq, false_or, List.mem_flatMap] at h
        obtain ⟨arg, harg, hinner⟩ := h
        exact hargs arg harg inner hinner
      inList := fun helement inner h => by
        simp only [Expr.nodes, List.mem_cons, reduceCtorEq, false_or] at h
        exact helement inner h
      join := fun hcarrier inner h => by
        simp only [Expr.nodes, List.mem_cons, reduceCtorEq, false_or] at h
        exact hcarrier inner h
      existsRow := fun {query} hquery inner h => by
        simp only [Expr.nodes, List.mem_singleton, Expr.existsRow.injEq] at h
        exact h ▸ hquery
      query := fun {query} hexpressions => step query hexpressions }
  exact steps.statement query

/-! ## The expressions of a statement -/

/-- The expression of an item is one of the statement. -/
theorem mem_expressions_of_mem_results {query : Query} {result : Projection} {e : Expr}
    (hresult : result ∈ query.results) (he : e ∈ result.expression?) : e ∈ query.expressions :=
  List.mem_append_left _ (List.mem_append_left _ (List.mem_filterMap.2 ⟨result, hresult, he⟩))

/-- A condition is an expression of the statement. -/
theorem mem_expressions_of_mem_predicates {query : Query} {predicate : Expr}
    (h : predicate ∈ query.predicates) : predicate ∈ query.expressions :=
  List.mem_append_left _ (List.mem_append_right _ h)

/-- What a sort key sorts by is an expression of the statement. -/
theorem mem_expressions_of_mem_orderings {query : Query} {rule : SortRule} {key : SortKey}
    (hrule : rule ∈ query.order) (hkey : key ∈ rule.orderings) :
    key.expression ∈ query.expressions :=
  List.mem_append_right _ (List.mem_flatMap.2 ⟨rule, hrule, List.mem_map_of_mem hkey⟩)

end SqlSelect
