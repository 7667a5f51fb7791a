import SqlSelect.Tree.Nodes

/-!
# Building expressions

Conditions and calls built from expressions. A comparison for equality with NULL is never true in
SQL, so equality and inequality with a NULL literal are written with IS and IS NOT, and the
literal goes to the right. A NaN is such a literal too, because it is written as NULL. The
conjunction or disjunction of several conditions nests to the left and does not exist for none.
-/

namespace SqlSelect.Expr

/-- A comparison with one operator in general and another one if an operand is a NULL literal,
which then stands on the right. -/
def nullAware (op nullOp : BinaryOp) (left right : Expr) : Expr :=
  if right.isNullLiteral then binary nullOp left right
  else if left.isNullLiteral then binary nullOp right left
  else binary op left right

/-- Equality, by IS if an operand is a NULL literal. -/
def equals (left right : Expr) : Expr := nullAware .equal .is left right

/-- Inequality, by IS NOT if an operand is a NULL literal. -/
def notEquals (left right : Expr) : Expr := nullAware .notEqual .isNot left right

/-- Both conditions hold. -/
def both (left right : Expr) : Expr := binary .and left right

/-- One of the conditions holds. -/
def either (left right : Expr) : Expr := binary .or left right

/-- The condition does not hold. -/
def negated (condition : Expr) : Expr := unary .not condition

/-- The left operand is less. -/
def lessThan (left right : Expr) : Expr := binary .lessThan left right

/-- The left operand is not greater. -/
def lessThanOrEqual (left right : Expr) : Expr := binary .lessThanOrEqual left right

/-- The left operand is greater. -/
def greaterThan (left right : Expr) : Expr := binary .greaterThan left right

/-- The left operand is not less. -/
def greaterThanOrEqual (left right : Expr) : Expr := binary .greaterThanOrEqual left right

/-- The expression is NULL. -/
def equalsNull (e : Expr) : Expr := e.equals (literal .null)

/-- The expression is not NULL. -/
def notEqualsNull (e : Expr) : Expr := e.notEquals (literal .null)

/-- The conditions joined by an operator from the left, if there are any. -/
def chain? (op : BinaryOp) : List Expr → Option Expr
  | [] => none
  | first :: rest => some (rest.foldl (binary op) first)

/-- All conditions hold. -/
def all? (conditions : List Expr) : Option Expr := chain? .and conditions

/-- One of the conditions holds. -/
def any? (conditions : List Expr) : Option Expr := chain? .or conditions

/-- The greatest of several values. -/
def maximum (args : List Expr) : Expr := call .max args

/-- The least of several values. -/
def minimum (args : List Expr) : Expr := call .min args

/-- The number of rows in which a value is not NULL. -/
def count (arg : Expr) : Expr := call .count [arg]

/-- The condition negated a number of times. -/
def negatedTimes (times : Nat) (condition : Expr) : Expr := Nat.repeat negated times condition

/-- The expression under another name. -/
def as (e : Expr) (label : String) : Projection := .aliased e label

/-- Sorted by the expression, least first. -/
def ascending (e : Expr) : SortKey := ⟨e, .ascending⟩

/-- Sorted by the expression, greatest first. -/
def descending (e : Expr) : SortKey := ⟨e, .descending⟩

/-- There is a chain exactly of some conditions. -/
theorem chain?_eq_none_iff {op : BinaryOp} {conditions : List Expr} :
    chain? op conditions = none ↔ conditions = [] := by
  cases conditions <;> simp [chain?]

end SqlSelect.Expr
