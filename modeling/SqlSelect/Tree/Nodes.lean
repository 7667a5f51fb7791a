import SqlSelect.Each
import SqlSelect.TableSet
import SqlSelect.Tree.Equality

/-!
# Nodes, tables and joins of an expression

The nodes of an expression are listed in pre-order: a node before its operands, and operands from
left to right. A subquery is a node without operands here, so nothing is said about its inside.
The tables that an expression mentions and the joins that it carries are read off its nodes.
-/

namespace SqlSelect

mutual

/-- The nodes of an expression in pre-order; subqueries are not entered. -/
def Expr.nodes : Expr → List Expr
  | .binary op left right => .binary op left right :: (left.nodes ++ right.nodes)
  | .unary op operand => .unary op operand :: operand.nodes
  | .column c => [.column c]
  | .literal value => [.literal value]
  | .call function args => .call function args :: Expr.nodesOfList args
  | .inList element values => .inList element values :: element.nodes
  | .join left right carrier => .join left right carrier :: carrier.nodes
  | .existsRow query => [.existsRow query]

/-- The nodes of several expressions, one expression after the other. -/
def Expr.nodesOfList : List Expr → List Expr
  | [] => []
  | first :: rest => first.nodes ++ Expr.nodesOfList rest

end

namespace Expr

theorem nodes_call (function : FunctionName) (args : List Expr) :
    (call function args).nodes = call function args :: args.flatMap nodes := by
  rw [nodes, each_eq_flatMap nodesOfList rfl fun _ _ => rfl]

/-- The first node is the expression itself. -/
theorem mem_nodes_self (e : Expr) : e ∈ e.nodes := by
  cases e <;> simp [nodes]

/-- The tables that a node mentions by itself: those of a column and of both ends of a join. -/
def ownTables : Expr → List Table
  | column c => [c.table]
  | join left right _ => [left.table, right.table]
  | _ => []

/-- The tables that an expression mentions outside its subqueries. -/
def tables (e : Expr) : TableSet :=
  e.nodes.foldl
    (fun tables node => node.ownTables.foldl (fun tables table => tables.insert table) tables) ∅

/-- The condition that the two columns of a join are equal. -/
def joinCondition (left right : Column) : Expr := .binary .equal (.column left) (.column right)

/-- The condition of a node that is a join. -/
def joinCondition? : Expr → Option Expr
  | join left right _ => some (joinCondition left right)
  | _ => none

/-- A list with an expression at its end, unless it is there already. -/
def appendNew (list : List Expr) (e : Expr) : List Expr := if e ∈ list then list else list ++ [e]

/-- The conditions of the joins that an expression carries outside its subqueries, each once, in
the order in which the nodes come. -/
def joins (e : Expr) : List Expr :=
  e.nodes.foldl
    (fun joins node =>
      match node.joinCondition? with
      | some condition => appendNew joins condition
      | none => joins)
    []

/-- A literal that stands for NULL: NULL itself or a NaN. -/
def isNullLiteral : Expr → Bool
  | literal .null => true
  | literal (.real x) => x.isNaN
  | _ => false

theorem mem_appendNew {list : List Expr} {e other : Expr} :
    other ∈ appendNew list e ↔ other ∈ list ∨ other = e := by
  unfold appendNew
  split
  · next h =>
    refine ⟨.inl, fun hother => ?_⟩
    rcases hother with hother | rfl
    · exact hother
    · exact h
  · simp

/-- The joins of an expression are those that its nodes state. -/
theorem mem_joins {condition e : Expr} :
    condition ∈ e.joins ↔ ∃ node ∈ e.nodes, node.joinCondition? = some condition := by
  have fold : ∀ (nodes list : List Expr),
      condition ∈ nodes.foldl
        (fun joins node =>
          match node.joinCondition? with
          | some condition => appendNew joins condition
          | none => joins) list ↔
        condition ∈ list ∨ ∃ node ∈ nodes, node.joinCondition? = some condition := by
    intro nodes
    induction nodes with
    | nil => intro list; simp
    | cons first rest ih =>
      intro list
      rw [List.foldl_cons, ih]
      cases h : first.joinCondition? with
      | none => simp [h]
      | some found => simp [h, mem_appendNew, or_assoc, eq_comm]
  rw [joins, fold]
  simp

theorem mem_foldl_insert {table : Table} (list : List Table) (start : TableSet) :
    table ∈ list.foldl (fun tables table => tables.insert table) start ↔
      table ∈ start ∨ table ∈ list := by
  induction list generalizing start with
  | nil => simp
  | cons first rest ih =>
    rw [List.foldl_cons, ih, TableSet.mem_insert, List.mem_cons]
    exact ⟨fun h => by rcases h with (h | h) | h <;> simp [h],
      fun h => by rcases h with h | h | h <;> simp [h]⟩

/-- The tables of an expression are those that its nodes mention. -/
theorem mem_tables {table : Table} {e : Expr} :
    table ∈ e.tables ↔ ∃ node ∈ e.nodes, table ∈ node.ownTables := by
  have fold : ∀ (nodes : List Expr) (start : TableSet),
      table ∈ nodes.foldl (fun tables node =>
        node.ownTables.foldl (fun tables table => tables.insert table) tables) start ↔
        table ∈ start ∨ ∃ node ∈ nodes, table ∈ node.ownTables := by
    intro nodes
    induction nodes with
    | nil => intro start; simp
    | cons first rest ih =>
      intro start
      rw [List.foldl_cons, ih, mem_foldl_insert, or_assoc]
      simp
  rw [tables, fold]
  simp

end Expr

namespace Projection

/-- The tables that an item of a SELECT list mentions. -/
def tables : Projection → TableSet
  | expr expression => expression.tables
  | aliased expression _ => expression.tables
  | wildcard table => TableSet.ofList [table]

end Projection

namespace SortRule

/-- The tables that the sort keys mention. -/
def tables (rule : SortRule) : TableSet := TableSet.unions (rule.expressions.map Expr.tables)

end SortRule

namespace Query

/-- The tables of the FROM clause: those that the selected items and the conditions mention. What
is sorted by adds none. -/
def tables (query : Query) : TableSet :=
  TableSet.unions (query.results.map Projection.tables ++ query.predicates.map Expr.tables)

theorem mem_tables {table : Table} {query : Query} :
    table ∈ query.tables ↔
      (∃ result ∈ query.results, table ∈ result.tables) ∨
        ∃ predicate ∈ query.predicates, table ∈ predicate.tables := by
  rw [tables, TableSet.mem_unions]
  constructor
  · intro h
    obtain ⟨set, hset, htable⟩ := h
    rcases List.mem_append.1 hset with hset | hset
    · obtain ⟨result, hresult, rfl⟩ := List.mem_map.1 hset
      exact .inl ⟨result, hresult, htable⟩
    · obtain ⟨predicate, hpredicate, rfl⟩ := List.mem_map.1 hset
      exact .inr ⟨predicate, hpredicate, htable⟩
  · intro h
    rcases h with ⟨result, hresult, htable⟩ | ⟨predicate, hpredicate, htable⟩
    · exact ⟨_, List.mem_append_left _ (List.mem_map_of_mem hresult), htable⟩
    · exact ⟨_, List.mem_append_right _ (List.mem_map_of_mem hpredicate), htable⟩

end Query

end SqlSelect
