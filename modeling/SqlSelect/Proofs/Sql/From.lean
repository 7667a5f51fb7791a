import SqlSelect.Proofs.Query.Subquery
import SqlSelect.Proofs.Sql.Unique

/-!
# The FROM clause

The FROM clause of a statement lists exactly the tables that the statement itself mentions: those of
which it selects all columns, and those of the columns and of the ends of the joins that stand in what
it selects and tests. What it sorts by and what its subqueries mention has no part in it. So a column
that the text shows in the SELECT list or in a condition, outside subqueries, has its table in the FROM
clause of the same SELECT.
-/

namespace SqlSelect

/-! ## Columns in an SQL tree -/

/-- A column stands in an expression of SQL, at a place that is not inside a subquery. -/
inductive SqlExpr.Shows (table label : String) : SqlExpr → Prop
  | column : Shows table label (.column table label)
  | binaryLeft {op : BinaryOp} {left right : SqlExpr} (hleft : Shows table label left) :
      Shows table label (.binary op left right)
  | binaryRight {op : BinaryOp} {left right : SqlExpr} (hright : Shows table label right) :
      Shows table label (.binary op left right)
  | unary {op : UnaryOp} {operand : SqlExpr} (hoperand : Shows table label operand) :
      Shows table label (.unary op operand)
  | call {function : FunctionName} {args : List SqlExpr} {arg : SqlExpr} (harg : arg ∈ args)
      (hshows : Shows table label arg) : Shows table label (.call function args)
  | inList {element : SqlExpr} {values : List SqlConstant} (helement : Shows table label element) :
      Shows table label (.inList element values)

/-- The expression of an item, if it has one. -/
def SqlItem.expression? : SqlItem → Option SqlExpr
  | .expr expression => some expression
  | .aliased expression _ => some expression
  | .wildcard _ => none

namespace SqlStatement

/-- A column stands in the SELECT list or in a condition, outside subqueries. -/
def Shows (statement : SqlStatement) (table label : String) : Prop :=
  (∃ item ∈ statement.items, ∃ e ∈ item.expression?, e.Shows table label) ∨
    ∃ condition ∈ statement.conditions, condition.Shows table label

/-- The FROM clause has the table of every column that the SELECT list or a condition shows, and every
table of which all columns are selected. -/
structure Resolves (statement : SqlStatement) : Prop where
  columns : ∀ table label, statement.Shows table label → table ∈ statement.tables
  wildcards : ∀ table, .wildcard table ∈ statement.items → table ∈ statement.tables

end SqlStatement

/-- A column in the tree of an expression stands in the expression. -/
theorem Expr.standsIn_of_shows {e : Expr} {table label : String}
    (h : e.sqlTree.Shows table label) : (Expr.column ⟨⟨table⟩, label⟩).StandsIn e := by
  have steps : TreeInduction
      (fun e => e.sqlTree.Shows table label → (Expr.column ⟨⟨table⟩, label⟩).StandsIn e)
      (fun _ => True) :=
    { binary := fun hleft hright h => by
        cases h with
        | binaryLeft h => exact .binaryLeft (hleft h)
        | binaryRight h => exact .binaryRight (hright h)
      unary := fun hoperand h => by
        cases h with
        | unary h => exact .unary (hoperand h)
      column := fun c h => by
        cases h with
        | column => exact .self
      literal := fun value h => by cases h
      call := fun hargs h => by
        rw [Expr.sqlTree_call] at h
        cases h with
        | call hmem h =>
          obtain ⟨arg, harg, rfl⟩ := List.mem_map.1 hmem
          exact .call harg (hargs arg harg h)
      inList := fun helement h => by
        cases h with
        | inList h => exact .inList (helement h)
      join := fun hcarrier h => .join (hcarrier h)
      existsRow := fun _ h => by cases h
      query := fun _ => trivial }
  exact steps.expr e h

/-- The expression of the tree of an item is the tree of its expression. -/
theorem Projection.expression?_sqlTree (result : Projection) :
    result.sqlTree.expression? = result.expression?.map Expr.sqlTree := by
  cases result <;> rfl

namespace Query

variable {query : Query}

/-- A statement mentions the tables of the columns that its SELECT list and its conditions show. -/
theorem mentions_of_shows {table label : String} (h : query.sqlTree.Shows table label) :
    query.Mentions ⟨table⟩ := by
  rw [sqlTree_eq] at h
  obtain ⟨item, hitem, tree, htree, hshows⟩ | ⟨condition, hcondition, hshows⟩ := h
  · obtain ⟨result, hresult, rfl⟩ := List.mem_map.1 hitem
    rw [Projection.expression?_sqlTree] at htree
    obtain ⟨e, he, rfl⟩ := Option.map_eq_some_iff.1 htree
    exact .inr (.inl ⟨result, hresult, e, he, .inl ⟨label, Expr.standsIn_of_shows hshows⟩⟩)
  · obtain ⟨predicate, hpredicate, rfl⟩ := List.mem_map.1 hcondition
    exact .inr (.inr ⟨predicate, hpredicate, .inl ⟨label, Expr.standsIn_of_shows hshows⟩⟩)

/-- A statement mentions the tables of which its SELECT list has all columns. -/
theorem mentions_of_wildcard {table : String} (h : .wildcard table ∈ query.sqlTree.items) :
    query.Mentions ⟨table⟩ := by
  rw [sqlTree_eq] at h
  obtain ⟨result, hresult, hitem⟩ := List.mem_map.1 h
  cases result with
  | wildcard selected =>
    obtain rfl := SqlItem.wildcard.inj hitem
    exact .inl hresult
  | _ => cases hitem

/-! ## The tables of the tree -/

/-- The names in the FROM clause are those of the tables of the statement. -/
theorem tables_sqlTree (query : Query) :
    query.sqlTree.tables = query.tables.toList.map Table.name := by
  rw [sqlTree_eq]

/-- A name is in the FROM clause exactly if the statement mentions the table of this name. -/
theorem mem_tables_sqlTree_iff {table : String} :
    table ∈ query.sqlTree.tables ↔ query.Mentions ⟨table⟩ := by
  rw [← mem_tables_iff_mentions, tables_sqlTree, List.mem_map]
  constructor
  · intro h
    obtain ⟨listed, hlisted, rfl⟩ := h
    exact hlisted
  · exact fun h => ⟨_, h, rfl⟩

/-- The names in the FROM clause are in strictly increasing order of their bytes. -/
theorem increasing_tables_sqlTree (query : Query) :
    query.sqlTree.tables.Pairwise fun left right =>
      compare (nameBytes left) (nameBytes right) = .lt := by
  rw [tables_sqlTree, List.pairwise_map]
  exact query.tables.increasing

theorem resolves_sqlTree (query : Query) : query.sqlTree.Resolves where
  columns _ _ h := mem_tables_sqlTree_iff.2 (mentions_of_shows h)
  wildcards _ h := mem_tables_sqlTree_iff.2 (mentions_of_wildcard h)

/-- The FROM clause is that of the names in the tree. -/
theorem fromClause_eq (query : Query) :
    query.tables.fromClause = clause " FROM " ", " (query.sqlTree.tables.map quoteName) := by
  rw [tables_sqlTree, List.map_map]
  rfl

/-- A statement has no FROM clause exactly if it mentions no table. -/
theorem fromClause_eq_nil_iff :
    clause " FROM " ", " (query.sqlTree.tables.map quoteName) = [] ↔
      ∀ table, ¬ query.Mentions table := by
  have hkeyword : " FROM ".toList ≠ [] := by decide
  rw [clause]
  split
  · next hnil =>
    have htables : query.sqlTree.tables = [] := List.map_eq_nil_iff.1 hnil
    refine iff_of_true rfl fun table hmentions => ?_
    have hmem := mem_tables_sqlTree_iff.2 hmentions
    rw [htables] at hmem
    exact absurd hmem List.not_mem_nil
  · next hne =>
    refine iff_of_false (fun hnil => hkeyword (List.append_eq_nil_iff.1 hnil).1) fun h => hne ?_
    refine List.map_eq_nil_iff.2 (List.eq_nil_iff_forall_not_mem.2 fun table hmem => ?_)
    exact h ⟨table⟩ (mem_tables_sqlTree_iff.1 hmem)

end Query

/-! ## Exactness -/

/-- The FROM clause of a statement is exact. Its text is read as one tree only, in which the FROM clause
names the tables that the statement mentions, each once and in increasing order, and resolves the
columns of the SELECT list and the conditions. -/
structure Query.FromExact (query : Query) : Prop where
  tables : ∀ table, table ∈ query.tables ↔ query.Mentions table
  tree : ∀ tree : SqlStatement,
    sqlTokens? (sql query).toList = some tree.tokens ↔ tree = query.sqlTree
  listed : ∀ name, name ∈ query.sqlTree.tables ↔ query.Mentions ⟨name⟩
  increasing : query.sqlTree.tables.Pairwise fun left right =>
    compare (nameBytes left) (nameBytes right) = .lt
  text : (sql query).toList =
    "SELECT ".toList ++ ", ".toList.intercalate (query.results.map Projection.render) ++
      clause " FROM " ", " (query.sqlTree.tables.map quoteName) ++
      clause " WHERE " " AND " (query.predicates.map Expr.render) ++
      clause " ORDER BY " "," (query.order.map SortRule.render)
  absent : clause " FROM " ", " (query.sqlTree.tables.map quoteName) = [] ↔
    ∀ table, ¬ query.Mentions table
  resolves : query.sqlTree.Resolves

/-- The text of a statement is read as its tree and as no other one. -/
theorem sqlTokens?_eq_tokens_iff {query : Query} {tree : SqlStatement} :
    sqlTokens? (sql query).toList = some tree.tokens ↔ tree = query.sqlTree := by
  rw [sqlTokens?_query]
  constructor
  · exact fun h => statementTree_eq_of_tokens_eq (Option.some.inj h)
  · rintro rfl
    rfl

theorem Query.fromExact (query : Query) : query.FromExact where
  tables _ := mem_tables_iff_mentions
  tree _ := sqlTokens?_eq_tokens_iff
  listed _ := mem_tables_sqlTree_iff
  increasing := query.increasing_tables_sqlTree
  text := by
    rw [sql, String.toList_ofList, ← fromClause_eq]
    exact query.render_eq
  absent := fromClause_eq_nil_iff
  resolves := query.resolves_sqlTree

/-- The FROM clause of a statement is exactly the set of tables that the statement itself mentions. This
holds for every subquery at any depth as well, whose text stands in that of the statement, and the
places and the number of the items and the conditions make no difference for it. -/
theorem from_clause_is_exact (query : Query) :
    query.FromExact ∧
      (∀ inner : Query, inner.Within query →
        inner.FromExact ∧ ∃ before after : String, sql query = before ++ sql inner ++ after) ∧
      ∀ other : Query, (∀ result, result ∈ other.results ↔ result ∈ query.results) →
        (∀ predicate, predicate ∈ other.predicates ↔ predicate ∈ query.predicates) →
          other.tables = query.tables ∧ other.sqlTree.tables = query.sqlTree.tables := by
  refine ⟨query.fromExact, fun inner hwithin => ⟨inner.fromExact, ?_⟩,
    fun other hresults hpredicates => ?_⟩
  · -- The statement is a hole filled with the subquery, and the text of a filled hole is framed.
    obtain ⟨hole, rfl⟩ := exists_hole_of_within hwithin
    obtain ⟨before, after, htext⟩ := hole.framed.exists_strings
    exact ⟨before, after, htext inner⟩
  · have htables := Query.tables_congr hresults hpredicates
    exact ⟨htables, by rw [Query.tables_sqlTree, Query.tables_sqlTree, htables]⟩

/-- A statement with a correlated subquery: each of the two has a FROM clause of its own, and that of the
outer one stays the same if a condition is repeated. -/
theorem from_clause_of_correlated :
    let ofOuter : Expr := .column ⟨⟨"t"⟩, "a"⟩
    let inner : Query := ⟨[.wildcard ⟨"u"⟩], [.binary .equal (.column ⟨⟨"u"⟩, "b"⟩) ofOuter], []⟩
    let outer : Query := ⟨[.expr ofOuter], [.existsRow inner], []⟩
    let repeated : Query := ⟨[.expr ofOuter], [.existsRow inner, .existsRow inner], []⟩
    (inner.Within outer ∧ inner.FromExact ∧
      ∃ before after : String, sql outer = before ++ sql inner ++ after) ∧
    (∀ result, result ∈ repeated.results ↔ result ∈ outer.results) ∧
      (∀ predicate, predicate ∈ repeated.predicates ↔ predicate ∈ outer.predicates) ∧
      repeated.tables = outer.tables ∧ repeated.sqlTree.tables = outer.sqlTree.tables := by
  intro ofOuter inner outer repeated
  have hwithin : inner.Within outer := by
    apply Query.Within.here (e := Expr.existsRow inner)
    · simp [outer, Query.expressions, Projection.expression?]
    · exact Expr.mem_nodes_self _
  have hresults : ∀ result, result ∈ repeated.results ↔ result ∈ outer.results := fun _ => Iff.rfl
  have hpredicates : ∀ predicate, predicate ∈ repeated.predicates ↔ predicate ∈ outer.predicates := by
    simp [repeated, outer]
  have hexact := from_clause_is_exact outer
  exact ⟨⟨hwithin, hexact.2.1 inner hwithin⟩, hresults, hpredicates,
    hexact.2.2 repeated hresults hpredicates⟩

end SqlSelect
