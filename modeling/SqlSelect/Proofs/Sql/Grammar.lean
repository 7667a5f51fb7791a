import SqlSelect.Proofs.Sql.Unique
import SqlSelect.Query.Validity

/-!
# Grammatical statements

A text is a SELECT statement of the grammar if its tokens are those of a proper tree. The rules below
say which trees are proper: at every depth a SELECT list has an item and no term of an ORDER BY
clause is missing. A clause without items is not written, so FROM, WHERE and ORDER BY always have
one. Calls and IN lists may be empty.

Validation looks at the SELECT list of the outermost statement only. A valid statement is
grammatical if and only if no sort rule is empty and the same holds, together with a SELECT list
that is not empty, for the statements nested in it.
-/

namespace SqlSelect

/-! ## The grammar -/

mutual

/-- The rules for expressions. -/
inductive SqlExpr.Proper : SqlExpr → Prop
  | constant (c : SqlConstant) : SqlExpr.Proper (.constant c)
  | column (table label : String) : SqlExpr.Proper (.column table label)
  | binary (op : BinaryOp) {left right : SqlExpr} (hleft : left.Proper) (hright : right.Proper) :
      SqlExpr.Proper (.binary op left right)
  | unary (op : UnaryOp) {operand : SqlExpr} (hoperand : operand.Proper) :
      SqlExpr.Proper (.unary op operand)
  | call (function : FunctionName) {args : List SqlExpr}
      (hargs : ∀ arg ∈ args, SqlExpr.Proper arg) : SqlExpr.Proper (.call function args)
  | inList {element : SqlExpr} (helement : element.Proper) (values : List SqlConstant) :
      SqlExpr.Proper (.inList element values)
  | existsRow {statement : SqlStatement} (hstatement : statement.Proper) :
      SqlExpr.Proper (.existsRow statement)

/-- The rules for items of a SELECT list. -/
inductive SqlItem.Proper : SqlItem → Prop
  | expr {expression : SqlExpr} (hexpression : expression.Proper) : SqlItem.Proper (.expr expression)
  | aliased {expression : SqlExpr} (hexpression : expression.Proper) (label : String) :
      SqlItem.Proper (.aliased expression label)
  | wildcard (table : String) : SqlItem.Proper (.wildcard table)

/-- The rule for terms of an ORDER BY clause; there is none for a missing term. -/
inductive SqlTerm.Proper : SqlTerm → Prop
  | key {expression : SqlExpr} (hexpression : expression.Proper) (direction : Direction) :
      SqlTerm.Proper (.key expression direction)

/-- The rule for statements. -/
inductive SqlStatement.Proper : SqlStatement → Prop
  | select {items : List SqlItem} (hitems : items ≠ []) (eachItem : ∀ item ∈ items, item.Proper)
      (tables : List String) {conditions : List SqlExpr}
      (eachCondition : ∀ condition ∈ conditions, condition.Proper) {terms : List SqlTerm}
      (eachTerm : ∀ term ∈ terms, term.Proper) :
      SqlStatement.Proper ⟨items, tables, conditions, terms⟩

end

/-- A text is a SELECT statement of the grammar. -/
def Grammatical (text : String) : Prop :=
  ∃ statement : SqlStatement, statement.Proper ∧ sqlTokens? text.toList = some statement.tokens

/-! ## Nested statements -/

namespace Query

/-- A statement nested in another one, at any depth: in an expression that is selected, tested or
sorted by, below any nodes of that expression. -/
inductive Within : Query → Query → Prop
  | here {query outer : Query} {e : Expr} (he : e ∈ outer.expressions)
      (hnode : Expr.existsRow query ∈ e.nodes) : Within query outer
  | deeper {query middle outer : Query} {e : Expr} (he : e ∈ outer.expressions)
      (hnode : Expr.existsRow middle ∈ e.nodes) (hquery : Within query middle) : Within query outer

/-- No sort rule of a statement is empty. -/
def SortsByKeys (query : Query) : Prop := ∀ rule ∈ query.order, rule.orderings ≠ []

/-- A statement that selects something and has no empty sort rule. -/
def Complete (query : Query) : Prop := query.results ≠ [] ∧ query.SortsByKeys

/-- A term is missing exactly for an empty sort rule. -/
theorem none_not_mem_terms_iff {query : Query} : none ∉ query.terms ↔ query.SortsByKeys := by
  have hrule : ∀ rule : SortRule, none ∈ rule.terms ↔ rule.orderings = [] := by
    intro rule
    unfold SortRule.terms
    split
    · next hnil => simp [hnil]
    · next hne => simp [hne]
  simp only [terms, List.mem_flatMap, hrule, SortsByKeys, not_exists, not_and]

end Query

/-! ## Proper trees of expressions and statements -/

namespace SqlExpr

theorem proper_binary_iff {op : BinaryOp} {left right : SqlExpr} :
    (binary op left right).Proper ↔ left.Proper ∧ right.Proper := by
  refine ⟨fun h => ?_, fun h => .binary op h.1 h.2⟩
  cases h with
  | binary _ hleft hright => exact ⟨hleft, hright⟩

theorem proper_unary_iff {op : UnaryOp} {operand : SqlExpr} :
    (unary op operand).Proper ↔ operand.Proper := by
  refine ⟨fun h => ?_, fun h => .unary op h⟩
  cases h with
  | unary _ hoperand => exact hoperand

theorem proper_call_iff {function : FunctionName} {args : List SqlExpr} :
    (call function args).Proper ↔ ∀ arg ∈ args, arg.Proper := by
  refine ⟨fun h => ?_, fun h => .call function h⟩
  cases h with
  | call _ hargs => exact hargs

theorem proper_inList_iff {element : SqlExpr} {values : List SqlConstant} :
    (inList element values).Proper ↔ element.Proper := by
  refine ⟨fun h => ?_, fun h => .inList h values⟩
  cases h with
  | inList helement => exact helement

theorem proper_existsRow_iff {statement : SqlStatement} :
    (existsRow statement).Proper ↔ statement.Proper := by
  refine ⟨fun h => ?_, fun h => .existsRow h⟩
  cases h with
  | existsRow hstatement => exact hstatement

end SqlExpr

/-- The tree of an expression is proper if and only if those of its subqueries are. -/
theorem Expr.proper_sqlTree_iff (e : Expr) :
    e.sqlTree.Proper ↔ ∀ query, Expr.existsRow query ∈ e.nodes → query.sqlTree.Proper := by
  have steps : TreeInduction
      (fun e => e.sqlTree.Proper ↔
        ∀ query, Expr.existsRow query ∈ e.nodes → query.sqlTree.Proper)
      (fun _ => True) :=
    { binary := fun hleft hright => by
        rw [Expr.sqlTree, SqlExpr.proper_binary_iff, hleft, hright]
        simp only [Expr.nodes, List.mem_cons, List.mem_append, reduceCtorEq, false_or, or_imp,
          forall_and]
      unary := fun hoperand => by
        rw [Expr.sqlTree, SqlExpr.proper_unary_iff, hoperand]
        simp only [Expr.nodes, List.mem_cons, reduceCtorEq, false_or]
      column := fun c => by
        refine ⟨fun _ query h => ?_, fun _ => .column _ _⟩
        simp [Expr.nodes] at h
      literal := fun value => by
        refine ⟨fun _ query h => ?_, fun _ => .constant _⟩
        simp [Expr.nodes] at h
      call := fun {function args} hargs => by
        rw [Expr.sqlTree_call, SqlExpr.proper_call_iff, List.forall_mem_map]
        simp only [Expr.nodes_call, List.mem_cons, reduceCtorEq, false_or,
          List.mem_flatMap, forall_exists_index, and_imp]
        exact ⟨fun h query arg harg => (hargs arg harg).1 (h arg harg) query,
          fun h arg harg => (hargs arg harg).2 fun query => h query arg harg⟩
      inList := fun helement => by
        rw [Expr.sqlTree, SqlExpr.proper_inList_iff, helement]
        simp only [Expr.nodes, List.mem_cons, reduceCtorEq, false_or]
      join := fun hcarrier => by
        rw [Expr.sqlTree, hcarrier]
        simp only [Expr.nodes, List.mem_cons, reduceCtorEq, false_or]
      existsRow := fun _ => by
        rw [Expr.sqlTree, SqlExpr.proper_existsRow_iff]
        simp only [Expr.nodes, List.mem_singleton, Expr.existsRow.injEq, forall_eq]
      query := fun _ => trivial }
  exact steps.expr e

/-- An item is proper if and only if its expression is. -/
theorem Projection.proper_sqlTree_iff (result : Projection) :
    result.sqlTree.Proper ↔ ∀ e ∈ result.expression?, e.sqlTree.Proper := by
  cases result with
  | expr expression =>
    refine ⟨fun h e he => ?_, fun h => .expr (h expression rfl)⟩
    obtain rfl : expression = e := Option.some.inj he
    cases h with
    | expr hexpression => exact hexpression
  | aliased expression label =>
    refine ⟨fun h e he => ?_, fun h => .aliased (h expression rfl) label⟩
    obtain rfl : expression = e := Option.some.inj he
    cases h with
    | aliased hexpression => exact hexpression
  | wildcard table =>
    refine ⟨fun _ e he => ?_, fun _ => .wildcard table.name⟩
    cases he

/-- A key is proper if and only if its expression is. -/
theorem SortKey.proper_sqlTree_iff (key : SortKey) :
    key.sqlTree.Proper ↔ key.expression.sqlTree.Proper := by
  obtain ⟨expression, direction⟩ := key
  refine ⟨fun h => ?_, fun h => .key h direction⟩
  cases h with
  | key hexpression => exact hexpression

/-- Every key of a sort rule is a term of the statement. -/
theorem some_mem_terms {query : Query} {rule : SortRule} {key : SortKey} (hrule : rule ∈ query.order)
    (hkey : key ∈ rule.orderings) : some key ∈ query.terms := by
  refine List.mem_flatMap.2 ⟨rule, hrule, ?_⟩
  unfold SortRule.terms
  rw [if_neg (List.ne_nil_of_mem hkey)]
  exact List.mem_map_of_mem hkey

/-- The tree of a statement is proper if and only if the statement is complete and the trees of its
expressions are proper. -/
theorem Query.proper_sqlTree_iff (query : Query) :
    query.sqlTree.Proper ↔ query.Complete ∧ ∀ e ∈ query.expressions, e.sqlTree.Proper := by
  have hmissing : ¬ SqlTerm.missing.Proper := fun h => by cases h
  rw [Query.sqlTree_eq]
  constructor
  · intro h
    cases h with
    | select hitems eachItem _ eachCondition eachTerm =>
      refine ⟨⟨by simpa using hitems, Query.none_not_mem_terms_iff.1 fun hnone => ?_⟩, ?_⟩
      · exact hmissing (eachTerm _ (List.mem_map_of_mem (f := SortKey.sqlTerm) hnone))
      · intro e he
        simp only [Query.expressions, List.mem_append, List.mem_filterMap, List.mem_flatMap] at he
        obtain (⟨result, hresult, he⟩ | he) | ⟨rule, hrule, he⟩ := he
        · exact (Projection.proper_sqlTree_iff result).1
            (eachItem _ (List.mem_map_of_mem hresult)) e he
        · exact eachCondition _ (List.mem_map_of_mem he)
        · obtain ⟨key, hkey, rfl⟩ := List.mem_map.1 he
          have hterm := some_mem_terms hrule hkey
          exact (SortKey.proper_sqlTree_iff key).1
            (eachTerm _ (List.mem_map_of_mem (f := SortKey.sqlTerm) hterm))
  · intro h
    obtain ⟨⟨hresults, hrules⟩, hexpressions⟩ := h
    refine .select (by simpa using hresults) ?_ _ ?_ ?_
    · intro item hitem
      obtain ⟨result, hresult, rfl⟩ := List.mem_map.1 hitem
      exact (Projection.proper_sqlTree_iff result).2 fun e he =>
        hexpressions e (mem_expressions_of_mem_results hresult he)
    · intro condition hcondition
      obtain ⟨predicate, hpredicate, rfl⟩ := List.mem_map.1 hcondition
      exact hexpressions predicate (mem_expressions_of_mem_predicates hpredicate)
    · intro tree htree
      obtain ⟨term, hterm, rfl⟩ := List.mem_map.1 htree
      cases term with
      | none => exact absurd hterm (Query.none_not_mem_terms_iff.2 hrules)
      | some key =>
        exact (SortKey.proper_sqlTree_iff key).2
          (hexpressions key.expression (mem_expressions_of_mem_terms hterm rfl))

/-- The tree of a statement is proper if and only if the statement and those nested in it at any
depth are complete. -/
theorem Query.proper_iff_complete (query : Query) :
    query.sqlTree.Proper ↔ query.Complete ∧ ∀ inner : Query, inner.Within query → inner.Complete := by
  have hinner : ∀ {outer : Query} {e : Expr}, outer.sqlTree.Proper → e ∈ outer.expressions →
      ∀ inner, Expr.existsRow inner ∈ e.nodes → inner.sqlTree.Proper := fun {outer e} h he =>
    (Expr.proper_sqlTree_iff e).1 (((Query.proper_sqlTree_iff outer).1 h).2 e he)
  constructor
  · intro h
    refine ⟨((Query.proper_sqlTree_iff query).1 h).1, fun inner hwithin => ?_⟩
    have hproper : inner.sqlTree.Proper := by
      induction hwithin with
      | here he hnode => exact hinner h he _ hnode
      | deeper he hnode _ ih => exact ih (hinner h he _ hnode)
    exact ((Query.proper_sqlTree_iff inner).1 hproper).1
  · induction query using Query.nested_induction with
    | step query ih =>
      intro h
      obtain ⟨hcomplete, hwithin⟩ := h
      refine (Query.proper_sqlTree_iff query).2 ⟨hcomplete, fun e he => ?_⟩
      refine (Expr.proper_sqlTree_iff e).2 fun inner hnode => ih e he inner hnode ?_
      exact ⟨hwithin inner (.here he hnode), fun deep hdeep => hwithin deep (.deeper he hnode hdeep)⟩

/-- The text of a statement is grammatical if and only if the statement and those nested in it are
complete. -/
theorem grammatical_sql_iff (query : Query) :
    Grammatical (sql query) ↔
      query.Complete ∧ ∀ inner : Query, inner.Within query → inner.Complete := by
  rw [← Query.proper_iff_complete]
  constructor
  · intro h
    obtain ⟨statement, hproper, htokens⟩ := h
    rw [sqlTokens?_query] at htokens
    rw [← statementTree_eq_of_tokens_eq (Option.some.inj htokens)]
    exact hproper
  · exact fun h => ⟨query.sqlTree, h, sqlTokens?_query query⟩

/-! ## Valid statements -/

/-- A valid statement selects something. -/
theorem Query.results_ne_nil_of_validate {query : Query} (h : query.validate = .ok ()) :
    query.results ≠ [] := by
  intro hnil
  rw [Query.validate, if_pos hnil] at h
  cases h

/-- The text of a valid statement is grammatical if and only if no sort rule of it is empty and the
statements nested in it at any depth select something and have no empty sort rule. -/
theorem grammatical_iff_of_validate {query : Query} (h : query.validate = .ok ()) :
    Grammatical (sql query) ↔
      query.SortsByKeys ∧ ∀ inner : Query, inner.Within query → inner.Complete := by
  have hresults := Query.results_ne_nil_of_validate h
  rw [grammatical_sql_iff, Query.Complete, and_iff_right hresults]

/-- A statement with a subquery and a sort key is valid, so the rule applies to it. -/
theorem grammatical_iff_of_nested :
    let query : Query := ⟨[.wildcard ⟨"t"⟩], [.existsRow ⟨[.wildcard ⟨"u"⟩], [], []⟩],
      [⟨[⟨.column ⟨⟨"t"⟩, "a"⟩, .ascending⟩]⟩]⟩
    query.validate = .ok () ∧
      (Grammatical (sql query) ↔
        query.SortsByKeys ∧ ∀ inner : Query, inner.Within query → inner.Complete) := by
  intro query
  have hvalid : query.validate = .ok () := rfl
  exact ⟨hvalid, grammatical_iff_of_validate hvalid⟩

/-- Validation looks neither into a subquery nor at an empty sort rule: both statements are valid and
not grammatical. -/
theorem valid_not_grammatical :
    let existsNothing : Query := ⟨[.wildcard ⟨"t"⟩], [.existsRow ⟨[], [], []⟩], []⟩
    let sortedByNothing : Query := ⟨[.wildcard ⟨"t"⟩], [], [⟨[]⟩]⟩
    (existsNothing.validate = .ok () ∧ ¬ Grammatical (sql existsNothing)) ∧
      sortedByNothing.validate = .ok () ∧ ¬ Grammatical (sql sortedByNothing) := by
  intro existsNothing sortedByNothing
  refine ⟨⟨rfl, fun h => ?_⟩, rfl, fun h => ?_⟩
  · have hwithin : Query.Within ⟨[], [], []⟩ existsNothing := by
      apply Query.Within.here (e := Expr.existsRow ⟨[], [], []⟩)
      · simp [existsNothing, Query.expressions, Projection.expression?]
      · exact Expr.mem_nodes_self _
    exact (((grammatical_sql_iff existsNothing).1 h).2 _ hwithin).1 rfl
  · have hrule : (⟨[]⟩ : SortRule) ∈ sortedByNothing.order := List.mem_singleton_self _
    exact ((grammatical_sql_iff sortedByNothing).1 h).1.2 _ hrule rfl

end SqlSelect
