import SqlSelect.Proofs.Query.FirstSeen
import SqlSelect.Proofs.Query.Validity
import SqlSelect.Proofs.Sql.NullText

/-!
# Conditions joined by one operator

Several conditions are joined from the left into one, which does not exist for none. The nesting is to
the left, so all opening parentheses come first and every further condition closes one. The tables and
the joins of the whole are those of its conditions. A statement that filters by the whole has the same
tables and the same verdict as one that filters by the conditions one by one, although its predicates
are others.
-/

namespace SqlSelect

/-- An opening parenthesis for every condition but the first, then the first, then each further one
behind the word and in front of its closing parenthesis. -/
def chainText (word : String) (first : Expr) (rest : List Expr) : String :=
  String.ofList (List.replicate rest.length '(') ++ sql first ++
    String.join (rest.map fun e => " " ++ word ++ " " ++ sql e ++ ")")

/-- The expression that a builder makes of some conditions has each of them once and in order, in its
text, its tables and its joins. It may stand for the conditions in a longer list, and in a statement. -/
structure Chained (build : List Expr → Option Expr) (word : String) (first : Expr)
    (rest : List Expr) (e : Expr) : Prop where
  built : build (first :: rest) = some e
  sql_eq : sql e = chainText word first rest
  tables_eq : e.tables = TableSet.unions ((first :: rest).map Expr.tables)
  joins_eq : e.joins = ((first :: rest).flatMap Expr.joins).eraseDups
  extended : ∀ more, build (first :: rest ++ more) = build (e :: more)
  filtered : ∀ query : Query,
    (query.filter e).tables = ((first :: rest).foldl Query.filter query).tables ∧
      (query.filter e).validate = ((first :: rest).foldl Query.filter query).validate

namespace Expr

/-- An operator mentions the tables of its operands. -/
theorem mem_tables_binary {table : Table} {op : BinaryOp} {left right : Expr} :
    table ∈ (binary op left right).tables ↔ table ∈ left.tables ∨ table ∈ right.tables := by
  simp only [mem_tables, nodes, ownTables, List.mem_cons, List.mem_append, or_and_right, exists_or,
    exists_eq_left, List.not_mem_nil, false_or]

/-- The parentheses of a chain open at its start. -/
theorem sql_chain (op : BinaryOp) (first : Expr) (rest : List Expr) :
    sql (rest.foldl (binary op) first) = chainText op.symbol first rest := by
  induction rest generalizing first with
  | nil => simp [chainText]
  | cons second others ih =>
    rw [List.foldl_cons, ih, chainText, chainText, sql_binary, List.length_cons,
      List.replicate_succ', String.ofList_append, List.map_cons, String.join_cons]
    simp only [String.append_assoc]

/-- A chain mentions the tables of its conditions. -/
theorem mem_tables_chain {table : Table} (op : BinaryOp) (first : Expr) (rest : List Expr) :
    table ∈ (rest.foldl (binary op) first).tables ↔ ∃ e ∈ first :: rest, table ∈ e.tables := by
  induction rest generalizing first with
  | nil => simp
  | cons second others ih =>
    rw [List.foldl_cons, ih]
    simp only [List.mem_cons, exists_eq_or_imp, mem_tables_binary, or_assoc]

/-- The joins in a chain come in the order of its conditions. -/
theorem joinSequence_chain (op : BinaryOp) (first : Expr) (rest : List Expr) :
    (rest.foldl (binary op) first).joinSequence = (first :: rest).flatMap joinSequence := by
  induction rest generalizing first with
  | nil => simp
  | cons second others ih =>
    rw [List.foldl_cons, ih]
    simp only [List.flatMap_cons, joinSequence, List.append_assoc]

theorem joins_chain (op : BinaryOp) (first : Expr) (rest : List Expr) :
    (rest.foldl (binary op) first).joins = ((first :: rest).flatMap joins).eraseDups := by
  have hjoins : joins = fun e => e.joinSequence.eraseDups := funext joins_eq
  rw [joins_eq, joinSequence_chain, hjoins, eraseDups_flatMap_eraseDups]

/-- A chain may stand for its conditions at the start of a longer chain. -/
theorem chain?_append (op : BinaryOp) (first : Expr) (rest more : List Expr) :
    chain? op (first :: rest ++ more) = chain? op (rest.foldl (binary op) first :: more) := by
  rw [List.cons_append, chain?, chain?, List.foldl_append]

end Expr

namespace Query

/-- Filtering by several conditions, one by one, puts them behind the others. -/
theorem foldl_filter (query : Query) (conditions : List Expr) :
    conditions.foldl filter query =
      { query with predicates := query.predicates ++ conditions } := by
  induction conditions generalizing query with
  | nil => cases query; simp
  | cons first rest ih => rw [List.foldl_cons, ih, filter, List.append_assoc]; rfl

/-- A condition that mentions the tables of several others has the same part in the FROM clause. -/
theorem tables_filter_eq {query : Query} {e : Expr} {conditions : List Expr}
    (h : ∀ table, table ∈ e.tables ↔ ∃ condition ∈ conditions, table ∈ condition.tables) :
    (query.filter e).tables = (conditions.foldl filter query).tables := by
  ext table
  rw [foldl_filter, mem_tables_filter, h, mem_tables, mem_tables]
  simp only [List.mem_append, or_and_right, exists_or, or_assoc]

/-- Such a condition leads to the same verdict. -/
theorem validate_filter_eq {query : Query} {e : Expr} {conditions : List Expr}
    (h : ∀ table, table ∈ e.tables ↔ ∃ condition ∈ conditions, table ∈ condition.tables) :
    (query.filter e).validate = (conditions.foldl filter query).validate := by
  have htables : (query.filter e).tables = (conditions.foldl filter query).tables :=
    tables_filter_eq h
  rw [foldl_filter] at htables ⊢
  exact validate_congr Iff.rfl htables rfl

end Query

/-- The chain of one operator has all of its conditions, once and in order. -/
theorem chained_chain (op : BinaryOp) (first : Expr) (rest : List Expr) :
    Chained (Expr.chain? op) op.symbol first rest (rest.foldl (.binary op) first) where
  built := rfl
  sql_eq := Expr.sql_chain op first rest
  tables_eq := by
    ext table
    rw [Expr.mem_tables_chain, TableSet.mem_unions]
    simp only [List.mem_map, exists_exists_and_eq_and]
  joins_eq := Expr.joins_chain op first rest
  extended := Expr.chain?_append op first rest
  filtered query :=
    ⟨Query.tables_filter_eq fun _ => Expr.mem_tables_chain op first rest,
      Query.validate_filter_eq fun _ => Expr.mem_tables_chain op first rest⟩

/-- The conjunction and the disjunction of a list of conditions exist unless the list is empty. They keep
every condition once and in order: in the text, in the tables, in the joins, where later repeats are
dropped, in a longer list that goes on with more conditions, and in the tables and the verdict of a
statement that filters by them. -/
theorem conditions_kept_in_order :
    ((∀ conditions, Expr.all? conditions = none ↔ conditions = []) ∧
      ∀ first rest, ∃ e, Chained Expr.all? "AND" first rest e) ∧
    ((∀ conditions, Expr.any? conditions = none ↔ conditions = []) ∧
      ∀ first rest, ∃ e, Chained Expr.any? "OR" first rest e) :=
  ⟨⟨fun _ => Expr.chain?_eq_none_iff, fun first rest => ⟨_, chained_chain .and first rest⟩⟩,
    ⟨fun _ => Expr.chain?_eq_none_iff, fun first rest => ⟨_, chained_chain .or first rest⟩⟩⟩

/-- Three conditions in one: two parentheses open at the start, and each further condition closes one. -/
example :
    let condition (name : String) : Expr := .column ⟨⟨"t"⟩, name⟩
    (Expr.all? [condition "a", condition "b", condition "c"]).map sql =
      some "((\"t\".\"a\" AND \"t\".\"b\") AND \"t\".\"c\")" := by
  decide +kernel

end SqlSelect
