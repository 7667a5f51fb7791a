import SqlSelect.Proofs.Tree.Induction

/-!
# What stands in an expression

A node stands in an expression if it is the expression itself or stands in an operand, an argument, a
tested element or a carrier of it. A subquery is such a node, but nothing inside it is. The nodes
listed in pre-order are exactly those that stand in the expression, so its tables are those of the
columns and of the ends of the joins that stand in it, and its joins are those that stand in it. A
statement mentions the tables of what it selects and tests; what it sorts by has no part in that.
-/

namespace SqlSelect

namespace Expr

/-- A node stands in an expression, at a place that is not inside a subquery. -/
inductive StandsIn (node : Expr) : Expr → Prop
  | self : StandsIn node node
  | binaryLeft {op : BinaryOp} {left right : Expr} (hleft : StandsIn node left) :
      StandsIn node (.binary op left right)
  | binaryRight {op : BinaryOp} {left right : Expr} (hright : StandsIn node right) :
      StandsIn node (.binary op left right)
  | unary {op : UnaryOp} {operand : Expr} (hoperand : StandsIn node operand) :
      StandsIn node (.unary op operand)
  | call {function : FunctionName} {args : List Expr} {arg : Expr} (harg : arg ∈ args)
      (hnode : StandsIn node arg) : StandsIn node (.call function args)
  | inList {element : Expr} {values : List Literal} (helement : StandsIn node element) :
      StandsIn node (.inList element values)
  | join {left right : Column} {carrier : Expr} (hcarrier : StandsIn node carrier) :
      StandsIn node (.join left right carrier)

/-- The nodes of an expression are exactly those that stand in it. -/
theorem mem_nodes_iff {node e : Expr} : node ∈ e.nodes ↔ node.StandsIn e := by
  constructor
  · intro h
    have steps : TreeInduction (fun e => node ∈ e.nodes → node.StandsIn e) (fun _ => True) :=
      { binary := fun hleft hright h => by
          simp only [nodes, List.mem_cons, List.mem_append] at h
          obtain rfl | h | h := h
          · exact .self
          · exact .binaryLeft (hleft h)
          · exact .binaryRight (hright h)
        unary := fun hoperand h => by
          obtain rfl | h := List.mem_cons.1 h
          · exact .self
          · exact .unary (hoperand h)
        column := fun c h => List.mem_singleton.1 h ▸ .self
        literal := fun value h => List.mem_singleton.1 h ▸ .self
        call := fun hargs h => by
          simp only [nodes_call, List.mem_cons, List.mem_flatMap] at h
          obtain rfl | ⟨arg, harg, h⟩ := h
          · exact .self
          · exact .call harg (hargs arg harg h)
        inList := fun helement h => by
          obtain rfl | h := List.mem_cons.1 h
          · exact .self
          · exact .inList (helement h)
        join := fun hcarrier h => by
          obtain rfl | h := List.mem_cons.1 h
          · exact .self
          · exact .join (hcarrier h)
        existsRow := fun _ h => List.mem_singleton.1 h ▸ .self
        query := fun _ => trivial }
    exact steps.expr e h
  · intro h
    induction h with
    | self => exact mem_nodes_self node
    | binaryLeft _ ih => exact List.mem_cons_of_mem _ (List.mem_append_left _ ih)
    | binaryRight _ ih => exact List.mem_cons_of_mem _ (List.mem_append_right _ ih)
    | call harg _ ih =>
      rw [nodes_call]
      exact List.mem_cons_of_mem _ (List.mem_flatMap_of_mem harg ih)
    | unary _ ih => exact List.mem_cons_of_mem _ ih
    | inList _ ih => exact List.mem_cons_of_mem _ ih
    | join _ ih => exact List.mem_cons_of_mem _ ih

/-! ## Tables and joins -/

/-- A join with an end in the table stands in the expression. -/
def JoinsTable (e : Expr) (table : Table) : Prop :=
  ∃ (left right : Column) (carrier : Expr), (join left right carrier).StandsIn e ∧
    (left.table = table ∨ right.table = table)

/-- A column of the table, or a join with an end in it, stands in the expression. -/
def Mentions (e : Expr) (table : Table) : Prop :=
  (∃ name, (column ⟨table, name⟩).StandsIn e) ∨ e.JoinsTable table

/-- The tables of an expression are exactly those that it mentions. -/
theorem mem_tables_iff_mentions {e : Expr} {table : Table} :
    table ∈ e.tables ↔ e.Mentions table := by
  rw [mem_tables]
  constructor
  · intro h
    obtain ⟨node, hnode, htable⟩ := h
    have hstands := mem_nodes_iff.1 hnode
    cases node with
    | column c =>
      obtain rfl := List.mem_singleton.1 htable
      exact .inl ⟨c.name, hstands⟩
    | join left right carrier =>
      have hends : table = left.table ∨ table = right.table := by simpa [ownTables] using htable
      exact .inr ⟨left, right, carrier, hstands, hends.imp Eq.symm Eq.symm⟩
    | _ => simp [ownTables] at htable
  · intro h
    obtain ⟨name, hstands⟩ | ⟨left, right, carrier, hstands, hends⟩ := h
    · exact ⟨_, mem_nodes_iff.2 hstands, List.mem_singleton_self table⟩
    · refine ⟨_, mem_nodes_iff.2 hstands, ?_⟩
      rcases hends with rfl | rfl <;> simp [ownTables]

/-- The joins of an expression are the conditions of the joins that stand in it. -/
theorem mem_joins_iff_standsIn {condition e : Expr} :
    condition ∈ e.joins ↔
      ∃ (left right : Column) (carrier : Expr), (join left right carrier).StandsIn e ∧
        condition = joinCondition left right := by
  rw [mem_joins]
  constructor
  · intro h
    obtain ⟨node, hnode, hcondition⟩ := h
    cases node with
    | join left right carrier =>
      exact ⟨left, right, carrier, mem_nodes_iff.1 hnode, (Option.some.inj hcondition).symm⟩
    | _ => cases hcondition
  · intro h
    obtain ⟨left, right, carrier, hstands, rfl⟩ := h
    exact ⟨_, mem_nodes_iff.2 hstands, rfl⟩

/-- The condition of a join mentions its two ends. -/
theorem mem_tables_joinCondition {left right : Column} {table : Table} :
    table ∈ (joinCondition left right).tables ↔ left.table = table ∨ right.table = table := by
  simp [mem_tables, joinCondition, nodes, ownTables, eq_comm]

/-- The condition of a join carries no join. -/
theorem joins_joinCondition (left right : Column) : (joinCondition left right).joins = [] := rfl

/-- The tables of the joins of an expression are among its tables. -/
theorem mem_tables_of_mem_joins {condition e : Expr} {table : Table} (h : condition ∈ e.joins)
    (htable : table ∈ condition.tables) : table ∈ e.tables := by
  obtain ⟨left, right, carrier, hstands, rfl⟩ := mem_joins_iff_standsIn.1 h
  exact mem_tables_iff_mentions.2
    (.inr ⟨left, right, carrier, hstands, mem_tables_joinCondition.1 htable⟩)

end Expr

/-! ## Statements -/

/-- The expressions of a statement are those of its items, its conditions, and those of its sort
rules. -/
theorem Query.mem_expressions_iff {query : Query} {e : Expr} :
    e ∈ query.expressions ↔
      (∃ result ∈ query.results, e ∈ result.expression?) ∨ e ∈ query.predicates ∨
        ∃ rule ∈ query.order, e ∈ rule.expressions := by
  simp only [Query.expressions, List.mem_append, List.mem_filterMap, List.mem_flatMap, or_assoc,
    Option.mem_def]

namespace Query

/-- A statement mentions the tables of which it selects all columns and those that the selected
expressions and the conditions mention. -/
def Mentions (query : Query) (table : Table) : Prop :=
  .wildcard table ∈ query.results ∨
    (∃ result ∈ query.results, ∃ e ∈ result.expression?, e.Mentions table) ∨
    ∃ predicate ∈ query.predicates, predicate.Mentions table

end Query

/-- The tables of an item are the one of which it is all columns, or those of its expression. -/
theorem Projection.mem_tables {result : Projection} {table : Table} :
    table ∈ result.tables ↔
      result = .wildcard table ∨ ∃ e ∈ result.expression?, table ∈ e.tables := by
  cases result <;> simp [Projection.tables, Projection.expression?, eq_comm]

/-- The tables of a sort rule are those of its expressions. -/
theorem SortRule.mem_tables {rule : SortRule} {table : Table} :
    table ∈ rule.tables ↔ ∃ e ∈ rule.expressions, table ∈ e.tables := by
  rw [SortRule.tables, TableSet.mem_unions]
  constructor
  · intro h
    obtain ⟨_, hset, htable⟩ := h
    obtain ⟨e, he, rfl⟩ := List.mem_map.1 hset
    exact ⟨e, he, htable⟩
  · intro h
    obtain ⟨e, he, htable⟩ := h
    exact ⟨e.tables, List.mem_map_of_mem he, htable⟩

/-- A sort rule mentions the tables that the expressions of its keys mention. -/
def SortRule.Mentions (rule : SortRule) (table : Table) : Prop :=
  ∃ key ∈ rule.orderings, key.expression.Mentions table

/-- The tables of a sort rule are exactly those that it mentions. -/
theorem SortRule.mem_tables_iff_mentions {rule : SortRule} {table : Table} :
    table ∈ rule.tables ↔ rule.Mentions table := by
  simp only [SortRule.mem_tables, SortRule.expressions, Expr.mem_tables_iff_mentions]
  constructor
  · rintro ⟨_, he, hmentions⟩
    obtain ⟨key, hkey, rfl⟩ := List.mem_map.1 he
    exact ⟨key, hkey, hmentions⟩
  · rintro ⟨key, hkey, hmentions⟩
    exact ⟨key.expression, List.mem_map_of_mem hkey, hmentions⟩

/-- The tables of a statement are exactly those that it mentions. -/
theorem Query.mem_tables_iff_mentions {query : Query} {table : Table} :
    table ∈ query.tables ↔ query.Mentions table := by
  rw [Query.mem_tables, Query.Mentions]
  simp only [Projection.mem_tables, Expr.mem_tables_iff_mentions]
  constructor
  · intro h
    obtain ⟨result, hresult, rfl | hmentions⟩ | hpredicate := h
    · exact .inl hresult
    · exact .inr (.inl ⟨result, hresult, hmentions⟩)
    · exact .inr (.inr hpredicate)
  · intro h
    obtain hresult | ⟨result, hresult, hmentions⟩ | hpredicate := h
    · exact .inl ⟨_, hresult, .inl rfl⟩
    · exact .inl ⟨result, hresult, .inr hmentions⟩
    · exact .inr hpredicate

/-- How often and in which order items and conditions come makes no difference for the tables. -/
theorem Query.tables_congr {left right : Query}
    (hresults : ∀ result, result ∈ left.results ↔ result ∈ right.results)
    (hpredicates : ∀ e, e ∈ left.predicates ↔ e ∈ right.predicates) :
    left.tables = right.tables := by
  ext table
  simp only [Query.mem_tables, hresults, hpredicates]

end SqlSelect
