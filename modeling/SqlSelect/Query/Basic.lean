import SqlSelect.Expr.Build

/-!
# Building statements

A statement starts from what it selects. Conditions are added at the end, in the order of the
calls; sort rules are added in front, so the last sort decides first.
-/

namespace SqlSelect.Query

/-- The statement that selects the given items. -/
def select (results : List Projection) : Query := ⟨results, [], []⟩

/-- The statement with one more condition, after the others. -/
def filter (query : Query) (predicate : Expr) : Query :=
  { query with predicates := query.predicates ++ [predicate] }

/-- The statement with more sort rules, ahead of the others. -/
def sortedBy (query : Query) (rules : List SortRule) : Query :=
  { query with order := rules ++ query.order }

/-- The statement with one more sort rule, ahead of the others. -/
def sorted (query : Query) (rule : SortRule) : Query := query.sortedBy [rule]

/-- The statement with one more selected item, after the others. -/
def appendResult (query : Query) (result : Projection) : Query :=
  { query with results := query.results ++ [result] }

/-- The three parts of a statement. -/
inductive Part where
  | results
  | predicates
  | order
deriving DecidableEq

/-- The statement without one of its parts. -/
def clear (query : Query) : Part → Query
  | .results => { query with results := [] }
  | .predicates => { query with predicates := [] }
  | .order => { query with order := [] }

/-- A new statement whose only condition is that the old one has a row. -/
def nest (query : Query) (results : List Projection) : Query :=
  (select results).filter (.existsRow query)

/-- A new statement whose only condition is that the old one has no row. -/
def nestNot (query : Query) (results : List Projection) : Query :=
  (select results).filter (Expr.negated (.existsRow query))

/-! ## What a step leaves alone -/

@[simp] theorem results_filter (query : Query) (predicate : Expr) :
    (query.filter predicate).results = query.results := rfl

@[simp] theorem predicates_filter (query : Query) (predicate : Expr) :
    (query.filter predicate).predicates = query.predicates ++ [predicate] := rfl

@[simp] theorem order_filter (query : Query) (predicate : Expr) :
    (query.filter predicate).order = query.order := rfl

@[simp] theorem results_sortedBy (query : Query) (rules : List SortRule) :
    (query.sortedBy rules).results = query.results := rfl

@[simp] theorem predicates_sortedBy (query : Query) (rules : List SortRule) :
    (query.sortedBy rules).predicates = query.predicates := rfl

@[simp] theorem order_sortedBy (query : Query) (rules : List SortRule) :
    (query.sortedBy rules).order = rules ++ query.order := rfl

/-- Sort rules have no part in the FROM clause. -/
@[simp] theorem tables_sortedBy (query : Query) (rules : List SortRule) :
    (query.sortedBy rules).tables = query.tables := rfl

/-- A condition adds its tables to the FROM clause. -/
@[simp] theorem mem_tables_filter {table : Table} {query : Query} {predicate : Expr} :
    table ∈ (query.filter predicate).tables ↔ table ∈ query.tables ∨ table ∈ predicate.tables := by
  simp only [mem_tables, results_filter, predicates_filter, List.mem_append, List.mem_singleton,
    or_and_right, exists_or, exists_eq_left, or_assoc]

end SqlSelect.Query
