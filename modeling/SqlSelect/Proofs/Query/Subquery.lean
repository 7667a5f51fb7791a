import SqlSelect.Proofs.Query.Joins
import SqlSelect.Proofs.Query.Validity
import SqlSelect.Proofs.Tree.Hole

/-!
# Subqueries seen from outside

What surrounds a subquery takes no notice of its inside. The text of the whole is the text of the
subquery between two texts that belong to the surroundings, and the tables, the joins, the conditions
that folding adds and the verdict of validation are those of the surroundings alone. This holds for a
subquery at any place of an expression or a statement and at any depth.
-/

namespace SqlSelect

/-! ## Framed texts -/

/-- A text made of the text of a subquery between two fixed texts. -/
def Framed (text : Query → List Char) : Prop :=
  ∃ before after, ∀ inner : Query, text inner = before ++ inner.render ++ after

namespace Framed

variable {text : Query → List Char}

/-- The text of the subquery itself is framed by nothing. -/
theorem self : Framed Query.render := ⟨[], [], fun _ => (List.append_nil _).symm⟩

/-- More text around a framed text frames it. -/
theorem between (h : Framed text) (front back : List Char) :
    Framed fun inner => front ++ text inner ++ back := by
  obtain ⟨before, after, htext⟩ := h
  exact ⟨front ++ before, after ++ back, fun inner => by simp [htext]⟩

/-- Texts that agree are framed alike. -/
theorem congr (h : Framed text) {other : Query → List Char}
    (hother : ∀ inner, other inner = text inner) : Framed other := by
  obtain ⟨before, after, htext⟩ := h
  exact ⟨before, after, fun inner => (hother inner).trans (htext inner)⟩

/-- A separated list with one framed item is framed. -/
theorem intercalate (h : Framed text) (separator : List Char) (before after : List (List Char)) :
    Framed fun inner => separator.intercalate (before ++ text inner :: after) := by
  induction before with
  | nil =>
    cases after with
    | nil => exact h.congr fun inner => List.intercalate_singleton
    | cons second rest =>
      refine (h.between [] (separator ++ separator.intercalate (second :: rest))).congr ?_
      intro inner
      simp [List.intercalate_cons_cons]
  | cons first rest ih =>
    refine (ih.between (first ++ separator) []).congr fun inner => ?_
    have hne : rest ++ text inner :: after ≠ [] := by simp
    simp [List.intercalate_cons_of_ne_nil hne]

/-- A clause with one framed item is framed. -/
theorem clause (h : Framed text) (keyword separator : String) (before after : List (List Char)) :
    Framed fun inner => SqlSelect.clause keyword separator (before ++ text inner :: after) := by
  refine ((h.intercalate separator.toList before after).between keyword.toList []).congr ?_
  intro inner
  have hne : before ++ text inner :: after ≠ [] := by simp
  rw [SqlSelect.clause, if_neg hne, List.append_nil]

/-- In terms of strings: the text of the subquery stands between two fixed strings. -/
theorem exists_strings (h : Framed text) : ∃ before after : String, ∀ inner : Query,
    String.ofList (text inner) = before ++ sql inner ++ after := by
  obtain ⟨before, after, htext⟩ := h
  refine ⟨String.ofList before, String.ofList after, fun inner => ?_⟩
  rw [htext, String.ofList_append, String.ofList_append]
  rfl

end Framed

/-! ## Statements with a hole -/

namespace QueryHole

variable (s t : Query) (hole : QueryHole)

/-- The tables of a statement do not depend on what fills a hole of it. -/
theorem tables_fill : (hole.fill s).tables = (hole.fill t).tables := by
  cases hole <;>
    simp only [fill, Query.tables, List.map_append, List.map_cons, Projection.tables,
      ExprHole.tables_fill s t]

/-- The joins of the expressions of a statement do not depend on what fills a hole of it. -/
theorem joins_fill :
    (hole.fill s).expressions.map Expr.joins = (hole.fill t).expressions.map Expr.joins := by
  cases hole <;>
    simp [fill, Query.expressions, Projection.expression?, SortRule.expressions,
      ExprHole.joins_fill s t]

/-- The tables of the sort rules do not depend on what fills a hole of the statement. -/
theorem order_fill :
    (hole.fill s).order.map SortRule.tables = (hole.fill t).order.map SortRule.tables := by
  cases hole <;>
    simp [fill, SortRule.tables, SortRule.expressions, ExprHole.tables_fill s t]

theorem results_fill : (hole.fill s).results = [] ↔ (hole.fill t).results = [] := by
  cases hole <;> simp [fill]

/-- Which conditions of joins a statement has does not depend on what fills a hole of it. -/
theorem joinCondition_mem_fill (left right : Column) :
    Expr.joinCondition left right ∈ (hole.fill s).predicates ↔
      Expr.joinCondition left right ∈ (hole.fill t).predicates := by
  cases hole with
  | predicate results before predicate after order =>
    have hs := (predicate.fill_ne_joinCondition s left right).symm
    have ht := (predicate.fill_ne_joinCondition t left right).symm
    simp only [fill, List.mem_append, List.mem_cons, hs, ht]
  | _ => simp only [fill]

/-- The joins that a statement misses do not depend on what fills a hole of it. -/
theorem missingJoins_fill : (hole.fill s).missingJoins = (hole.fill t).missingJoins := by
  refine Query.missingJoins_congr (hole.joins_fill s t) fun condition hcarries => ?_
  obtain ⟨left, right, rfl⟩ := hcarries.eq_joinCondition
  exact hole.joinCondition_mem_fill s t left right

/-- The verdict on a statement does not depend on what fills a hole of it. -/
theorem validate_fill : (hole.fill s).validate = (hole.fill t).validate :=
  Query.validate_congr (hole.results_fill s t) (hole.tables_fill s t) (hole.order_fill s t)

end QueryHole

/-! ## Texts of trees with a hole -/

namespace Framed

variable {text : Query → List Char}

/-- A test for a row frames what it tests. -/
theorem existsText (h : Framed text) : Framed fun inner => SqlSelect.existsText (text inner) := by
  unfold SqlSelect.existsText
  exact h.between "EXISTS (".toList [')']

/-- A framed element frames the subquery in the test for being one of several values. -/
theorem inListText (h : Framed text) (values : List Literal) :
    Framed fun inner => SqlSelect.inListText (text inner) values := by
  refine (h.between ['('] (" IN (".toList ++ (",".toList.intercalate (values.map Literal.render) ++
    "))".toList))).congr fun inner => ?_
  unfold SqlSelect.inListText
  simp only [List.cons_append, List.nil_append, List.append_assoc]

/-- A framed expression frames the subquery in the expression under another name. -/
theorem aliasedText (h : Framed text) (label : String) :
    Framed fun inner => SqlSelect.aliasedText (text inner) label := by
  refine (h.between [] (" AS ".toList ++ quoteName label)).congr fun inner => ?_
  unfold SqlSelect.aliasedText
  simp only [List.nil_append, List.append_assoc]

/-- A framed expression frames the subquery in the sort key. -/
theorem sortKeyText (h : Framed text) (direction : Direction) :
    Framed fun inner => SqlSelect.sortKeyText (text inner) direction :=
  (h.between [] (' ' :: direction.symbol.toList)).congr fun _ => rfl

/-- A framed item of a SELECT list frames the subquery in the statement. -/
theorem selectResult (h : Framed text) (tables : TableSet)
    (before after predicates order : List (List Char)) :
    Framed fun inner => selectText tables (before ++ text inner :: after) predicates order := by
  refine ((h.intercalate ", ".toList before after).between "SELECT ".toList
    (tables.fromClause ++ SqlSelect.clause " WHERE " " AND " predicates ++
      SqlSelect.clause " ORDER BY " "," order)).congr fun inner => ?_
  unfold selectText
  simp only [List.append_assoc]

/-- A framed condition frames the subquery in the statement. -/
theorem selectPredicate (h : Framed text) (tables : TableSet)
    (results before after order : List (List Char)) :
    Framed fun inner => selectText tables results (before ++ text inner :: after) order := by
  refine ((h.clause " WHERE " " AND " before after).between
    ("SELECT ".toList ++ ", ".toList.intercalate results ++ tables.fromClause)
    (SqlSelect.clause " ORDER BY " "," order)).congr fun inner => ?_
  unfold selectText
  simp only [List.append_assoc]

/-- A framed sort rule frames the subquery in the statement. -/
theorem selectSortRule (h : Framed text) (tables : TableSet)
    (results predicates before after : List (List Char)) :
    Framed fun inner => selectText tables results predicates (before ++ text inner :: after) := by
  refine ((h.clause " ORDER BY " "," before after).between
    ("SELECT ".toList ++ ", ".toList.intercalate results ++ tables.fromClause ++
      SqlSelect.clause " WHERE " " AND " predicates) []).congr fun inner => ?_
  unfold selectText
  simp only [List.append_assoc, List.append_nil]

end Framed

/-- The text of a statement is framed if its clauses are. The tables do not come from the subquery, so
those with any other subquery do. -/
theorem QueryHole.framed_of_clauses (hole : QueryHole)
    (h : Framed fun inner => selectText (hole.fill default).tables
      ((hole.fill inner).results.map Projection.render)
      ((hole.fill inner).predicates.map Expr.render)
      ((hole.fill inner).order.map SortRule.render)) :
    Framed fun inner => (hole.fill inner).render :=
  h.congr fun inner => by rw [Query.render_eq, hole.tables_fill inner default]

mutual

/-- The text of an expression frames that of a subquery in it. -/
theorem ExprHole.framed : (hole : ExprHole) → Framed fun inner => (hole.fill inner).render
  | .here => Framed.self.existsText.congr fun inner => by rw [ExprHole.fill, Expr.render]
  | .binaryLeft op left right =>
    (left.framed.between ['('] (' ' :: op.symbol.toList ++ ' ' :: right.render ++ [')'])).congr
      fun inner => by simp [ExprHole.fill, Expr.render, binaryText]
  | .binaryRight op left right =>
    (right.framed.between ('(' :: left.render ++ ' ' :: op.symbol.toList ++ [' ']) [')']).congr
      fun inner => by simp [ExprHole.fill, Expr.render, binaryText]
  | .unary op operand =>
    (operand.framed.between ('(' :: op.symbol.toList ++ [' ']) [')']).congr
      fun inner => by simp [ExprHole.fill, Expr.render, unaryText]
  | .call function before arg after => by
    have hargs := arg.framed.intercalate ",".toList (before.map Expr.render) (after.map Expr.render)
    refine (hargs.between (function.symbol.toList ++ ['(']) [')']).congr fun inner => ?_
    simp [ExprHole.fill, Expr.render_call, callText]
  | .inList element values => (element.framed.inListText values).congr fun inner => by
    rw [ExprHole.fill, Expr.render]
  | .join left right carrier => carrier.framed.congr fun inner => by
    rw [ExprHole.fill, Expr.render]
  | .inside query => query.framed.existsText.congr fun inner => by rw [ExprHole.fill, Expr.render]

/-- The text of a statement frames that of a subquery in it. -/
theorem QueryHole.framed : (hole : QueryHole) → Framed fun inner => (hole.fill inner).render
  | .result before expression after predicates order => by
    have hitems := expression.framed.selectResult
    refine QueryHole.framed_of_clauses _ ?_
    simp only [QueryHole.fill, List.map_append, List.map_cons, Projection.render]
    exact hitems _ _ _ _ _
  | .aliasedResult before expression label after predicates order => by
    have hitems := (expression.framed.aliasedText label).selectResult
    refine QueryHole.framed_of_clauses _ ?_
    simp only [QueryHole.fill, List.map_append, List.map_cons, Projection.render]
    exact hitems _ _ _ _ _
  | .predicate results before predicate after order => by
    have hconditions := predicate.framed.selectPredicate
    refine QueryHole.framed_of_clauses _ ?_
    simp only [QueryHole.fill, List.map_append, List.map_cons]
    exact hconditions _ _ _ _ _
  | .sortKey results predicates earlier before expression direction after later => by
    have hkey := (expression.framed.sortKeyText direction).intercalate ",".toList
      (before.map SortKey.render) (after.map SortKey.render)
    refine QueryHole.framed_of_clauses _ ?_
    simp only [QueryHole.fill, List.map_append, List.map_cons, SortRule.render_eq, sortRuleText,
      SortKey.render]
    exact hkey.selectSortRule _ _ _ _ _

end

/-! ## What surrounds a subquery -/

/-- An expression takes no notice of what fills its hole: its text is that of the subquery between
two fixed texts, and its tables and joins are its own. -/
structure ExprHole.Seals (hole : ExprHole) : Prop where
  text : ∃ before after : String, ∀ inner : Query,
    sql (hole.fill inner) = before ++ sql inner ++ after
  tables : ∀ s t : Query, (hole.fill s).tables = (hole.fill t).tables
  joins : ∀ s t : Query, (hole.fill s).joins = (hole.fill t).joins

/-- A statement takes no notice of what fills its hole: its text is that of the subquery between two
fixed texts, and its tables, the joins of its expressions, the conditions that folding appends and the
verdict on it are its own. -/
structure QueryHole.Seals (hole : QueryHole) : Prop where
  text : ∃ before after : String, ∀ inner : Query,
    sql (hole.fill inner) = before ++ sql inner ++ after
  tables : ∀ s t : Query, (hole.fill s).tables = (hole.fill t).tables
  joins : ∀ s t : Query,
    (hole.fill s).expressions.map Expr.joins = (hole.fill t).expressions.map Expr.joins
  folded : ∃ conditions : List Expr, ∀ inner : Query,
    (hole.fill inner).foldJoins.predicates = (hole.fill inner).predicates ++ conditions
  verdict : ∀ s t : Query, (hole.fill s).validate = (hole.fill t).validate

theorem ExprHole.seals (hole : ExprHole) : hole.Seals where
  text := hole.framed.exists_strings
  tables s t := hole.tables_fill s t
  joins s t := hole.joins_fill s t

theorem QueryHole.seals (hole : QueryHole) : hole.Seals where
  text := hole.framed.exists_strings
  tables s t := hole.tables_fill s t
  joins s t := hole.joins_fill s t
  folded := ⟨(hole.fill default).missingJoins, fun inner => by
    rw [Query.predicates_foldJoins, hole.missingJoins_fill inner default]⟩
  verdict s t := hole.validate_fill s t

/-- Every hole of an expression and of a statement seals the subquery that fills it, and every subquery
at any place and depth of an expression or a statement fills a hole. -/
theorem subqueries_fill_sealing_holes :
    (∀ hole : ExprHole, hole.Seals) ∧ (∀ hole : QueryHole, hole.Seals) ∧
      (∀ (e : Expr) (query : Query), Expr.existsRow query ∈ e.nodes →
        (∃ hole : ExprHole, hole.fill query = e) ∧
          ∀ inner : Query, inner.Within query → ∃ hole : ExprHole, hole.fill inner = e) ∧
      ∀ query inner : Query, inner.Within query → ∃ hole : QueryHole, hole.fill inner = query := by
  refine ⟨ExprHole.seals, QueryHole.seals, fun e query hnode => ?_,
    fun query inner hwithin => exists_hole_of_within hwithin⟩
  refine ⟨exists_hole_of_mem_nodes hnode, fun inner hwithin => ?_⟩
  obtain ⟨hole, rfl⟩ := exists_hole_of_within hwithin
  exact exists_hole_of_fill_mem_nodes hnode

/-- The subquery of a subquery in a negated condition fills holes of the condition and of the
statement. -/
theorem nested_subquery_fills_holes :
    let inner : Query := ⟨[.wildcard ⟨"u"⟩], [], []⟩
    let middle : Query := ⟨[.wildcard ⟨"v"⟩], [.existsRow inner], []⟩
    let condition : Expr := Expr.negated (.existsRow middle)
    let outer : Query := ⟨[.wildcard ⟨"t"⟩], [condition], []⟩
    (Expr.existsRow middle ∈ condition.nodes ∧ inner.Within middle ∧ inner.Within outer) ∧
      (∃ hole : ExprHole, hole.fill middle = condition) ∧
      (∃ hole : ExprHole, hole.fill inner = condition) ∧
      ∃ hole : QueryHole, hole.fill inner = outer := by
  intro inner middle condition outer
  have hnode : Expr.existsRow middle ∈ condition.nodes := by
    simp [condition, Expr.negated, Expr.nodes]
  have hmiddle : inner.Within middle := by
    apply Query.Within.here (e := Expr.existsRow inner)
    · simp [middle, Query.expressions, Projection.expression?]
    · exact Expr.mem_nodes_self _
  have houter : inner.Within outer :=
    .deeper (by simp [outer, Query.expressions, Projection.expression?]) hnode hmiddle
  have hexpr := subqueries_fill_sealing_holes.2.2.1 condition middle hnode
  exact ⟨⟨hnode, hmiddle, houter⟩, hexpr.1, hexpr.2 inner hmiddle,
    subqueries_fill_sealing_holes.2.2.2 outer inner houter⟩

end SqlSelect
