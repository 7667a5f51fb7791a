import SqlSelect.Proofs.Sql.Grammar
import SqlSelect.Proofs.Tree.Occurrence

/-!
# Trees with a hole

A tree with a hole is an expression or a statement in which one test for a row lacks its subquery. The
hole can be at any place: below any nodes of an expression that is selected, tested or sorted by, and
inside subqueries at any depth. Filling the hole makes a whole tree, and every statement nested in
another one fills some hole. The node of the test says the same whatever fills the hole, and so do
the nodes around it: which tables they mention and which joins they state.
-/

namespace SqlSelect

mutual

/-- An expression with a hole. -/
inductive ExprHole where
  /-- A test for a row of the missing subquery. -/
  | here
  | binaryLeft (op : BinaryOp) (left : ExprHole) (right : Expr)
  | binaryRight (op : BinaryOp) (left : Expr) (right : ExprHole)
  | unary (op : UnaryOp) (operand : ExprHole)
  | call (function : FunctionName) (before : List Expr) (arg : ExprHole) (after : List Expr)
  | inList (element : ExprHole) (values : List Literal)
  | join (left right : Column) (carrier : ExprHole)
  /-- A test for a row of a subquery that has the hole inside. -/
  | inside (query : QueryHole)

/-- A statement with a hole in one of its expressions. -/
inductive QueryHole where
  | result (before : List Projection) (expression : ExprHole) (after : List Projection)
      (predicates : List Expr) (order : List SortRule)
  | aliasedResult (before : List Projection) (expression : ExprHole) (label : String)
      (after : List Projection) (predicates : List Expr) (order : List SortRule)
  | predicate (results : List Projection) (before : List Expr) (predicate : ExprHole)
      (after : List Expr) (order : List SortRule)
  | sortKey (results : List Projection) (predicates : List Expr) (earlier : List SortRule)
      (before : List SortKey) (expression : ExprHole) (direction : Direction)
      (after : List SortKey) (later : List SortRule)

end

mutual

/-- The expression with a subquery in its hole. -/
def ExprHole.fill (inner : Query) : ExprHole → Expr
  | .here => .existsRow inner
  | .binaryLeft op left right => .binary op (left.fill inner) right
  | .binaryRight op left right => .binary op left (right.fill inner)
  | .unary op operand => .unary op (operand.fill inner)
  | .call function before arg after => .call function (before ++ arg.fill inner :: after)
  | .inList element values => .inList (element.fill inner) values
  | .join left right carrier => .join left right (carrier.fill inner)
  | .inside query => .existsRow (query.fill inner)

/-- The statement with a subquery in its hole. -/
def QueryHole.fill (inner : Query) : QueryHole → Query
  | .result before expression after predicates order =>
    ⟨before ++ .expr (expression.fill inner) :: after, predicates, order⟩
  | .aliasedResult before expression label after predicates order =>
    ⟨before ++ .aliased (expression.fill inner) label :: after, predicates, order⟩
  | .predicate results before predicate after order =>
    ⟨results, before ++ predicate.fill inner :: after, order⟩
  | .sortKey results predicates earlier before expression direction after later =>
    ⟨results, predicates,
      earlier ++ ⟨before ++ ⟨expression.fill inner, direction⟩ :: after⟩ :: later⟩

end

/-! ## Every nested statement fills a hole -/

section Surroundings

variable {inner : Query}

/-- What surrounds a node surrounds the hole in it. -/
theorem exists_hole_of_standsIn {node e : Expr} (h : node.StandsIn e)
    (hnode : ∃ hole : ExprHole, hole.fill inner = node) :
    ∃ hole : ExprHole, hole.fill inner = e := by
  induction h with
  | self => exact hnode
  | @binaryLeft op _ right _ ih =>
    obtain ⟨hole, rfl⟩ := ih
    exact ⟨.binaryLeft op hole right, by rw [ExprHole.fill]⟩
  | @binaryRight op left _ _ ih =>
    obtain ⟨hole, rfl⟩ := ih
    exact ⟨.binaryRight op left hole, by rw [ExprHole.fill]⟩
  | @unary op _ _ ih =>
    obtain ⟨hole, rfl⟩ := ih
    exact ⟨.unary op hole, by rw [ExprHole.fill]⟩
  | @call function _ _ harg _ ih =>
    obtain ⟨hole, rfl⟩ := ih
    obtain ⟨before, after, rfl⟩ := List.append_of_mem harg
    exact ⟨.call function before hole after, by rw [ExprHole.fill]⟩
  | @inList _ values _ ih =>
    obtain ⟨hole, rfl⟩ := ih
    exact ⟨.inList hole values, by rw [ExprHole.fill]⟩
  | @join left right _ _ ih =>
    obtain ⟨hole, rfl⟩ := ih
    exact ⟨.join left right hole, by rw [ExprHole.fill]⟩

/-- A hole in an expression of a statement is a hole in the statement. -/
theorem exists_hole_of_mem_expressions {query : Query} {e : Expr} (he : e ∈ query.expressions)
    (hexpression : ∃ hole : ExprHole, hole.fill inner = e) :
    ∃ hole : QueryHole, hole.fill inner = query := by
  obtain ⟨hole, rfl⟩ := hexpression
  obtain ⟨results, predicates, order⟩ := query
  obtain ⟨result, hresult, hselected⟩ | hpredicate | ⟨rule, hrule, hsorted⟩ :=
    Query.mem_expressions_iff.1 he
  · obtain ⟨before, after, rfl⟩ := List.append_of_mem hresult
    cases result with
    | expr expression =>
      obtain rfl := Option.some.inj hselected
      exact ⟨.result before hole after predicates order, by rw [QueryHole.fill]⟩
    | aliased expression label =>
      obtain rfl := Option.some.inj hselected
      exact ⟨.aliasedResult before hole label after predicates order, by rw [QueryHole.fill]⟩
    | wildcard table => cases hselected
  · obtain ⟨before, after, rfl⟩ := List.append_of_mem hpredicate
    exact ⟨.predicate results before hole after order, by rw [QueryHole.fill]⟩
  · obtain ⟨earlier, later, rfl⟩ := List.append_of_mem hrule
    obtain ⟨orderings⟩ := rule
    obtain ⟨⟨expression, direction⟩, hkey, rfl⟩ := List.mem_map.1 hsorted
    obtain ⟨before, after, rfl⟩ := List.append_of_mem hkey
    exact ⟨.sortKey results predicates earlier before hole direction after later,
      by rw [QueryHole.fill]⟩

/-- A statement that an expression tests for a row fills a hole of it. -/
theorem exists_hole_of_mem_nodes {e : Expr} (h : Expr.existsRow inner ∈ e.nodes) :
    ∃ hole : ExprHole, hole.fill inner = e :=
  exists_hole_of_standsIn (Expr.mem_nodes_iff.1 h) ⟨.here, by rw [ExprHole.fill]⟩

/-- What fills a hole of a statement that an expression tests for a row fills a hole of it. -/
theorem exists_hole_of_fill_mem_nodes {hole : QueryHole} {e : Expr}
    (h : Expr.existsRow (hole.fill inner) ∈ e.nodes) : ∃ hole : ExprHole, hole.fill inner = e :=
  exists_hole_of_standsIn (Expr.mem_nodes_iff.1 h) ⟨.inside hole, by rw [ExprHole.fill]⟩

/-- Every statement nested in another one fills a hole of it. -/
theorem exists_hole_of_within {query : Query} (h : inner.Within query) :
    ∃ hole : QueryHole, hole.fill inner = query := by
  induction h with
  | here he hnode => exact exists_hole_of_mem_expressions he (exists_hole_of_mem_nodes hnode)
  | deeper he hnode _ ih =>
    obtain ⟨hole, rfl⟩ := ih
    exact exists_hole_of_mem_expressions he (exists_hole_of_fill_mem_nodes hnode)

end Surroundings

/-! ## What nodes say -/

namespace Expr

/-- What a node says by itself: the tables that it mentions and the join that it states. -/
def marks (node : Expr) : List Table × Option Expr := (node.ownTables, node.joinCondition?)

/-- The tables of an expression depend on what its nodes say only. -/
theorem tables_congr {left right : Expr}
    (h : left.nodes.map marks = right.nodes.map marks) : left.tables = right.tables := by
  have hfold : ∀ e : Expr, e.tables = (e.nodes.map marks).foldl
      (fun tables mark => mark.1.foldl (fun tables table => tables.insert table) tables) ∅ := by
    intro e
    rw [List.foldl_map]
    rfl
  rw [hfold, hfold, h]

/-- The joins of an expression depend on what its nodes say only. -/
theorem joins_congr {left right : Expr}
    (h : left.nodes.map marks = right.nodes.map marks) : left.joins = right.joins := by
  have hfold : ∀ e : Expr, e.joins = (e.nodes.map marks).foldl
      (fun joins mark => mark.2.elim joins (appendNew joins)) [] := by
    intro e
    rw [List.foldl_map, joins]
    congr
    funext list node
    rw [marks]
    cases node.joinCondition? <;> rfl
  rw [hfold, hfold, h]

end Expr

namespace ExprHole

variable (s t : Query)

/-- The nodes around a hole say the same whatever fills it. -/
theorem marks_fill : (hole : ExprHole) →
    (hole.fill s).nodes.map Expr.marks = (hole.fill t).nodes.map Expr.marks
  | .here => by simp only [fill, Expr.nodes]; rfl
  | .binaryLeft op left right => by
    simp only [fill, Expr.nodes, List.map_cons, List.map_append, marks_fill left]
    rfl
  | .binaryRight op left right => by
    simp only [fill, Expr.nodes, List.map_cons, List.map_append, marks_fill right]
    rfl
  | .unary op operand => by
    simp only [fill, Expr.nodes, List.map_cons, marks_fill operand]
    rfl
  | .call function before arg after => by
    simp only [fill, Expr.nodes_call, List.flatMap_append, List.flatMap_cons, List.map_cons,
      List.map_append, marks_fill arg]
    rfl
  | .inList element values => by
    simp only [fill, Expr.nodes, List.map_cons, marks_fill element]
    rfl
  | .join left right carrier => by
    simp only [fill, Expr.nodes, List.map_cons, marks_fill carrier]
    rfl
  | .inside query => by simp only [fill, Expr.nodes]; rfl

/-- The tables of an expression do not depend on what fills a hole of it. -/
theorem tables_fill (hole : ExprHole) : (hole.fill s).tables = (hole.fill t).tables :=
  Expr.tables_congr (hole.marks_fill s t)

/-- The joins of an expression do not depend on what fills a hole of it. -/
theorem joins_fill (hole : ExprHole) : (hole.fill s).joins = (hole.fill t).joins :=
  Expr.joins_congr (hole.marks_fill s t)

/-- An expression with a hole is no column. -/
theorem fill_ne_column (hole : ExprHole) (c : Column) : hole.fill s ≠ .column c := by
  cases hole <;> simp [fill]

/-- An expression with a hole is not the condition of a join. -/
theorem fill_ne_joinCondition (hole : ExprHole) (left right : Column) :
    hole.fill s ≠ Expr.joinCondition left right := by
  cases hole <;> simp [fill, Expr.joinCondition, fill_ne_column]

end ExprHole

end SqlSelect
