import SqlSelect.Each
import SqlSelect.Tree.Basic

/-!
# Canonical trees

Writing a tree in JSON keeps everything of it but the payloads of its NaNs. The canonical form of a
tree has the one NaN that reading produces in the place of every NaN, in lists of literals and in
subqueries too, and is otherwise the tree itself.
-/

namespace SqlSelect

mutual

/-- An expression with canonical literals. -/
def Expr.canonical : Expr → Expr
  | .binary op left right => .binary op left.canonical right.canonical
  | .unary op operand => .unary op operand.canonical
  | .column c => .column c
  | .literal value => .literal value.canonical
  | .call function args => .call function (Expr.canonicalEach args)
  | .inList element values => .inList element.canonical (values.map Literal.canonical)
  | .join left right carrier => .join left right carrier.canonical
  | .existsRow query => .existsRow query.canonical

/-- Several expressions with canonical literals. -/
def Expr.canonicalEach : List Expr → List Expr
  | [] => []
  | first :: rest => first.canonical :: Expr.canonicalEach rest

/-- An item of a SELECT list with canonical literals. -/
def Projection.canonical : Projection → Projection
  | .expr expression => .expr expression.canonical
  | .aliased expression label => .aliased expression.canonical label
  | .wildcard table => .wildcard table

/-- Several items with canonical literals. -/
def Projection.canonicalEach : List Projection → List Projection
  | [] => []
  | first :: rest => first.canonical :: Projection.canonicalEach rest

/-- A sort key with canonical literals. -/
def SortKey.canonical : SortKey → SortKey
  | ⟨expression, direction⟩ => ⟨expression.canonical, direction⟩

/-- Several sort keys with canonical literals. -/
def SortKey.canonicalEach : List SortKey → List SortKey
  | [] => []
  | first :: rest => first.canonical :: SortKey.canonicalEach rest

/-- A sort rule with canonical literals. -/
def SortRule.canonical : SortRule → SortRule
  | ⟨orderings⟩ => ⟨SortKey.canonicalEach orderings⟩

/-- Several sort rules with canonical literals. -/
def SortRule.canonicalEach : List SortRule → List SortRule
  | [] => []
  | first :: rest => first.canonical :: SortRule.canonicalEach rest

/-- A statement with canonical literals. -/
def Query.canonical : Query → Query
  | ⟨results, predicates, order⟩ =>
    ⟨Projection.canonicalEach results, Expr.canonicalEach predicates, SortRule.canonicalEach order⟩

end

theorem Expr.canonical_call (function : FunctionName) (args : List Expr) :
    (Expr.call function args).canonical = .call function (args.map Expr.canonical) := by
  rw [Expr.canonical, each_eq_map Expr.canonicalEach rfl fun _ _ => rfl]

theorem SortRule.canonical_eq (rule : SortRule) :
    rule.canonical = ⟨rule.orderings.map SortKey.canonical⟩ := by
  cases rule
  rw [SortRule.canonical, each_eq_map SortKey.canonicalEach rfl fun _ _ => rfl]

/-- A canonical statement has canonical parts. -/
theorem Query.canonical_eq (query : Query) :
    query.canonical = ⟨query.results.map Projection.canonical, query.predicates.map Expr.canonical,
      query.order.map SortRule.canonical⟩ := by
  cases query
  rw [Query.canonical, each_eq_map Projection.canonicalEach rfl fun _ _ => rfl,
    each_eq_map Expr.canonicalEach rfl fun _ _ => rfl,
    each_eq_map SortRule.canonicalEach rfl fun _ _ => rfl]

end SqlSelect
