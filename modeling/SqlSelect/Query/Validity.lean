import SqlSelect.Query.Basic

/-!
# Validity

A statement is valid if it selects something and sorts only by tables of its FROM clause. The
first fault is reported: a missing SELECT list before anything else, and of the missing tables the
least one of the first sort rule that has any.
-/

namespace SqlSelect

/-- Why a statement is not valid. -/
inductive InvalidQuery where
  /-- Nothing is selected. -/
  | emptyProjection
  /-- A sort rule mentions a table that is not in the FROM clause. -/
  | danglingOrderTable (table : Table)
deriving DecidableEq

/-- What is said of a statement that is not valid. -/
def InvalidQuery.message : InvalidQuery → String
  | emptyProjection => "Query selects no results"
  | danglingOrderTable table =>
    "ORDER BY references table '" ++ table.name ++ "' which is not in the FROM clause"

namespace Query

/-- The least table of a rule that is not in a set of tables. -/
def missingTable? (tables : TableSet) (rule : SortRule) : Option Table :=
  rule.tables.toList.find? fun table => table ∉ tables

/-- Nothing if the statement is valid, or the first fault. -/
def validate (query : Query) : Except InvalidQuery Unit :=
  if query.results = [] then .error .emptyProjection
  else
    match query.order.findSome? (missingTable? query.tables) with
    | some table => .error (.danglingOrderTable table)
    | none => .ok ()

end Query

end SqlSelect
