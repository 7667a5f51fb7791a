import SqlSelect.Literal
import SqlSelect.Operator
import SqlSelect.Schema

/-!
# Statement trees

Expressions, the items of a SELECT list, sort rules and whole SELECT statements. They are declared
together because an expression can hold a subquery. A tree says nothing about well-formedness: a
statement may select nothing, and a sort rule may be empty.
-/

namespace SqlSelect

mutual

/-- A node of an expression. -/
inductive Expr where
  | binary (op : BinaryOp) (left right : Expr)
  | unary (op : UnaryOp) (operand : Expr)
  | column (column : Column)
  | literal (literal : Literal)
  | call (function : FunctionName) (args : List Expr)
  | inList (element : Expr) (values : List Literal)
  /-- A note that `left` is to equal `right`, carried by an expression which it does not change. -/
  | join (left right : Column) (carrier : Expr)
  /-- Whether a subquery has a row. -/
  | existsRow (query : Query)

/-- An item of a SELECT list. -/
inductive Projection where
  | expr (expression : Expr)
  | aliased (expression : Expr) (label : String)
  /-- All columns of a table. -/
  | wildcard (table : Table)

/-- An expression to sort by and a direction. -/
structure SortKey where
  expression : Expr
  direction : Direction

/-- One or more sort keys that belong together, the first of them deciding first. -/
structure SortRule where
  orderings : List SortKey

/-- A SELECT statement: what is selected, the conditions on rows, and the sort rules from the
deciding one to the last. -/
structure Query where
  results : List Projection
  predicates : List Expr
  order : List SortRule

end

/-- The statement without any parts. -/
instance : Inhabited Query := ⟨⟨[], [], []⟩⟩

instance : Inhabited Expr := ⟨.literal .null⟩

instance : Inhabited Projection := ⟨.expr default⟩

instance : Inhabited SortKey := ⟨⟨default, default⟩⟩

instance : Inhabited SortRule := ⟨⟨[]⟩⟩

namespace Projection

/-- The selected expression, without its alias; all columns of a table are not one. -/
def expression? : Projection → Option Expr
  | expr expression => some expression
  | aliased expression _ => some expression
  | wildcard _ => none

end Projection

namespace SortRule

/-- The expressions of the sort keys. -/
def expressions (rule : SortRule) : List Expr := rule.orderings.map SortKey.expression

end SortRule

namespace Query

/-- Every expression of a statement outside its subqueries: the selected ones, the conditions,
and those sorted by. -/
def expressions (query : Query) : List Expr :=
  query.results.filterMap Projection.expression? ++ query.predicates ++
    query.order.flatMap SortRule.expressions

end Query

end SqlSelect
