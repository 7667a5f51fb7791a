import SqlSelect.Tree.Basic

/-!
# Equality of statement trees

Two trees are the same when they have the same nodes with the same parts in the same places. The
test walks both trees at once, and it holds exactly when the trees are equal; so equality of
statements is decidable, and `==` on them is equality.
-/

namespace SqlSelect

mutual

/-- Whether two expressions have the same nodes. -/
def Expr.same : Expr → Expr → Bool
  | .binary op left right, .binary op' left' right' =>
    decide (op = op') && left.same left' && right.same right'
  | .unary op operand, .unary op' operand' => decide (op = op') && operand.same operand'
  | .column column, .column column' => decide (column = column')
  | .literal literal, .literal literal' => literal.same literal'
  | .call function args, .call function' args' =>
    decide (function = function') && Expr.sameList args args'
  | .inList element values, .inList element' values' =>
    element.same element' && decide (values = values')
  | .join left right carrier, .join left' right' carrier' =>
    decide (left = left') && decide (right = right') && carrier.same carrier'
  | .existsRow query, .existsRow query' => query.same query'
  | _, _ => false

/-- Whether two lists hold the same expressions in the same order. -/
def Expr.sameList : List Expr → List Expr → Bool
  | [], [] => true
  | first :: rest, first' :: rest' => first.same first' && Expr.sameList rest rest'
  | _, _ => false

/-- Whether two items of a SELECT list are the same. -/
def Projection.same : Projection → Projection → Bool
  | .expr expression, .expr expression' => expression.same expression'
  | .aliased expression label, .aliased expression' label' =>
    expression.same expression' && decide (label = label')
  | .wildcard table, .wildcard table' => decide (table = table')
  | _, _ => false

/-- Whether two lists hold the same items in the same order. -/
def Projection.sameList : List Projection → List Projection → Bool
  | [], [] => true
  | first :: rest, first' :: rest' => first.same first' && Projection.sameList rest rest'
  | _, _ => false

/-- Whether two sort keys are the same. -/
def SortKey.same : SortKey → SortKey → Bool
  | ⟨expression, direction⟩, ⟨expression', direction'⟩ =>
    expression.same expression' && decide (direction = direction')

/-- Whether two lists hold the same sort keys in the same order. -/
def SortKey.sameList : List SortKey → List SortKey → Bool
  | [], [] => true
  | first :: rest, first' :: rest' => first.same first' && SortKey.sameList rest rest'
  | _, _ => false

/-- Whether two sort rules are the same. -/
def SortRule.same : SortRule → SortRule → Bool
  | ⟨orderings⟩, ⟨orderings'⟩ => SortKey.sameList orderings orderings'

/-- Whether two lists hold the same sort rules in the same order. -/
def SortRule.sameList : List SortRule → List SortRule → Bool
  | [], [] => true
  | first :: rest, first' :: rest' => first.same first' && SortRule.sameList rest rest'
  | _, _ => false

/-- Whether two statements have the same parts. -/
def Query.same : Query → Query → Bool
  | ⟨results, predicates, order⟩, ⟨results', predicates', order'⟩ =>
    Projection.sameList results results' && Expr.sameList predicates predicates' &&
      SortRule.sameList order order'

end

mutual

/-- Expressions with the same nodes are equal. -/
theorem Expr.same_iff : (left right : Expr) → (left.same right = true ↔ left = right)
  | .binary op l r, right => by
    cases right <;> simp [Expr.same, Expr.same_iff l, Expr.same_iff r, and_assoc]
  | .unary op operand, right => by
    cases right <;> simp [Expr.same, Expr.same_iff operand]
  | .column column, right => by
    cases right <;> simp [Expr.same]
  | .literal literal, right => by
    cases right <;> simp [Expr.same, Literal.same_iff]
  | .call function args, right => by
    cases right <;> simp [Expr.same, Expr.sameList_iff args]
  | .inList element values, right => by
    cases right <;> simp [Expr.same, Expr.same_iff element]
  | .join l r carrier, right => by
    cases right <;> simp [Expr.same, Expr.same_iff carrier, and_assoc]
  | .existsRow query, right => by
    cases right <;> simp [Expr.same, Query.same_iff query]

theorem Expr.sameList_iff :
    (left right : List Expr) → (Expr.sameList left right = true ↔ left = right)
  | [], right => by cases right <;> simp [Expr.sameList]
  | first :: rest, right => by
    cases right <;> simp [Expr.sameList, Expr.same_iff first, Expr.sameList_iff rest]

theorem Projection.same_iff : (left right : Projection) → (left.same right = true ↔ left = right)
  | .expr expression, right => by
    cases right <;> simp [Projection.same, Expr.same_iff expression]
  | .aliased expression label, right => by
    cases right <;> simp [Projection.same, Expr.same_iff expression]
  | .wildcard table, right => by
    cases right <;> simp [Projection.same]

theorem Projection.sameList_iff :
    (left right : List Projection) → (Projection.sameList left right = true ↔ left = right)
  | [], right => by cases right <;> simp [Projection.sameList]
  | first :: rest, right => by
    cases right <;>
      simp [Projection.sameList, Projection.same_iff first, Projection.sameList_iff rest]

theorem SortKey.same_iff : (left right : SortKey) → (left.same right = true ↔ left = right)
  | ⟨expression, direction⟩, right => by
    cases right; simp [SortKey.same, Expr.same_iff expression]

theorem SortKey.sameList_iff :
    (left right : List SortKey) → (SortKey.sameList left right = true ↔ left = right)
  | [], right => by cases right <;> simp [SortKey.sameList]
  | first :: rest, right => by
    cases right <;> simp [SortKey.sameList, SortKey.same_iff first, SortKey.sameList_iff rest]

theorem SortRule.same_iff : (left right : SortRule) → (left.same right = true ↔ left = right)
  | ⟨orderings⟩, right => by
    cases right; simp [SortRule.same, SortKey.sameList_iff orderings]

theorem SortRule.sameList_iff :
    (left right : List SortRule) → (SortRule.sameList left right = true ↔ left = right)
  | [], right => by cases right <;> simp [SortRule.sameList]
  | first :: rest, right => by
    cases right <;> simp [SortRule.sameList, SortRule.same_iff first, SortRule.sameList_iff rest]

/-- Statements with the same parts are equal. -/
theorem Query.same_iff : (left right : Query) → (left.same right = true ↔ left = right)
  | ⟨results, predicates, order⟩, right => by
    cases right
    simp [Query.same, Projection.sameList_iff results, Expr.sameList_iff predicates,
      SortRule.sameList_iff order, and_assoc]

end

instance : DecidableEq Expr := fun left right => decidable_of_iff _ (Expr.same_iff left right)

instance : DecidableEq Projection :=
  fun left right => decidable_of_iff _ (Projection.same_iff left right)

instance : DecidableEq SortKey := fun left right => decidable_of_iff _ (SortKey.same_iff left right)

instance : DecidableEq SortRule :=
  fun left right => decidable_of_iff _ (SortRule.same_iff left right)

instance : DecidableEq Query := fun left right => decidable_of_iff _ (Query.same_iff left right)

end SqlSelect
