import SqlSelect.Proofs.Sql.Statement

/-!
# What quoted contents cannot change

Two statements that differ only in the contents of their texts, in the names of columns and aliases,
and by an injective renaming of their tables have the same kinds of tokens in the same order. So
nothing that is put between quotes can change what an SQL text does with the rest of it. A renaming
has to be injective because a table that is mentioned under two names is listed twice.
-/

namespace SqlSelect

/-- A token without what stands between its quotes. -/
def SqlToken.kind : SqlToken → SqlToken
  | .name _ => .name ""
  | .text _ => .text ""
  | other => other

/-! ## Outlines -/

/-- A literal without the content of a text. -/
def Literal.outline : Literal → Literal
  | .text _ => .text ""
  | other => other

/-- A column without its name, its table under a new one. -/
def Column.outline (rename : Table → Table) (c : Column) : Column := ⟨rename c.table, ""⟩

mutual

/-- An expression without the contents of texts and the names of columns, its tables renamed. -/
def Expr.outline (rename : Table → Table) : Expr → Expr
  | .binary op left right => .binary op (left.outline rename) (right.outline rename)
  | .unary op operand => .unary op (operand.outline rename)
  | .column c => .column (c.outline rename)
  | .literal value => .literal value.outline
  | .call function args => .call function (Expr.outlineEach rename args)
  | .inList element values => .inList (element.outline rename) (values.map Literal.outline)
  | .join left right carrier =>
    .join (left.outline rename) (right.outline rename) (carrier.outline rename)
  | .existsRow query => .existsRow (query.outline rename)

/-- The outlines of several expressions. -/
def Expr.outlineEach (rename : Table → Table) : List Expr → List Expr
  | [] => []
  | first :: rest => first.outline rename :: Expr.outlineEach rename rest

/-- The outline of an item of a SELECT list, an alias without its name. -/
def Projection.outline (rename : Table → Table) : Projection → Projection
  | .expr expression => .expr (expression.outline rename)
  | .aliased expression _ => .aliased (expression.outline rename) ""
  | .wildcard table => .wildcard (rename table)

/-- The outlines of several items. -/
def Projection.outlineEach (rename : Table → Table) : List Projection → List Projection
  | [] => []
  | first :: rest => first.outline rename :: Projection.outlineEach rename rest

/-- The outline of a sort key. -/
def SortKey.outline (rename : Table → Table) : SortKey → SortKey
  | ⟨expression, direction⟩ => ⟨expression.outline rename, direction⟩

/-- The outlines of several sort keys. -/
def SortKey.outlineEach (rename : Table → Table) : List SortKey → List SortKey
  | [] => []
  | first :: rest => first.outline rename :: SortKey.outlineEach rename rest

/-- The outline of a sort rule. -/
def SortRule.outline (rename : Table → Table) : SortRule → SortRule
  | ⟨orderings⟩ => ⟨SortKey.outlineEach rename orderings⟩

/-- The outlines of several sort rules. -/
def SortRule.outlineEach (rename : Table → Table) : List SortRule → List SortRule
  | [] => []
  | first :: rest => first.outline rename :: SortRule.outlineEach rename rest

/-- The outline of a statement. -/
def Query.outline (rename : Table → Table) : Query → Query
  | ⟨results, predicates, order⟩ =>
    ⟨Projection.outlineEach rename results, Expr.outlineEach rename predicates,
      SortRule.outlineEach rename order⟩

end

section Lists

variable (rename : Table → Table)

theorem Expr.outline_call (function : FunctionName) (args : List Expr) :
    (Expr.call function args).outline rename = .call function (args.map (Expr.outline rename)) := by
  rw [Expr.outline, each_eq_map (Expr.outlineEach rename) rfl fun _ _ => rfl]

theorem SortRule.outline_eq (rule : SortRule) :
    rule.outline rename = ⟨rule.orderings.map (SortKey.outline rename)⟩ := by
  cases rule
  rw [SortRule.outline, each_eq_map (SortKey.outlineEach rename) rfl fun _ _ => rfl]

/-- The outline of a statement is made of the outlines of its parts. -/
theorem Query.outline_eq (query : Query) :
    query.outline rename =
      ⟨query.results.map (Projection.outline rename), query.predicates.map (Expr.outline rename),
        query.order.map (SortRule.outline rename)⟩ := by
  cases query
  rw [Query.outline, each_eq_map (Projection.outlineEach rename) rfl fun _ _ => rfl,
    each_eq_map (Expr.outlineEach rename) rfl fun _ _ => rfl,
    each_eq_map (SortRule.outlineEach rename) rfl fun _ _ => rfl]

/-- The terms of an outline are the outlines of the terms. -/
theorem Query.terms_outline (query : Query) :
    (query.outline rename).terms = query.terms.map (Option.map (SortKey.outline rename)) := by
  have hrule : ∀ rule : SortRule, (rule.outline rename).terms =
      rule.terms.map (Option.map (SortKey.outline rename)) := by
    intro rule
    obtain ⟨orderings⟩ := rule
    cases orderings with
    | nil => rfl
    | cons first rest =>
      simp [SortRule.outline_eq, SortRule.terms, Function.comp_def]
  simp only [Query.terms, Query.outline_eq, List.flatMap_map, List.map_flatMap, hrule]

end Lists

/-! ## Tables of an outline -/

/-- The nodes of an outline are the outlines of the nodes. -/
theorem Expr.nodes_outline (rename : Table → Table) (e : Expr) :
    (e.outline rename).nodes = e.nodes.map (Expr.outline rename) := by
  have steps : TreeInduction
      (fun e => (e.outline rename).nodes = e.nodes.map (Expr.outline rename))
      (fun _ => True) :=
    { binary := fun hleft hright => by simp [Expr.outline, Expr.nodes, hleft, hright]
      unary := fun hoperand => by simp [Expr.outline, Expr.nodes, hoperand]
      column := fun c => by simp [Expr.outline, Expr.nodes]
      literal := fun value => by simp [Expr.outline, Expr.nodes]
      call := fun {function args} hargs => by
        have hall : args.flatMap (fun arg => (arg.outline rename).nodes) =
            args.flatMap (fun arg => arg.nodes.map (Expr.outline rename)) := by
          rw [List.flatMap_def, List.map_congr_left hargs, ← List.flatMap_def]
        simp [Expr.outline_call, Expr.nodes_call, List.flatMap_map, List.map_flatMap, hall]
      inList := fun helement => by simp [Expr.outline, Expr.nodes, helement]
      join := fun hcarrier => by simp [Expr.outline, Expr.nodes, hcarrier]
      existsRow := fun _ => by simp [Expr.outline, Expr.nodes]
      query := fun _ => trivial }
  exact steps.expr e

/-- The tables of an outline are the renamed tables. -/
theorem Expr.mem_tables_outline {rename : Table → Table} {table : Table} {e : Expr} :
    table ∈ (e.outline rename).tables ↔ ∃ old ∈ e.tables, rename old = table := by
  have hown : ∀ node : Expr, (node.outline rename).ownTables = node.ownTables.map rename := by
    intro node
    cases node <;> simp [Expr.outline, Expr.ownTables, Column.outline]
  simp only [Expr.mem_tables, Expr.nodes_outline, List.mem_map]
  constructor
  · intro h
    obtain ⟨_, ⟨node, hnode, rfl⟩, htable⟩ := h
    rw [hown] at htable
    obtain ⟨old, hold, rfl⟩ := List.mem_map.1 htable
    exact ⟨old, ⟨node, hnode, hold⟩, rfl⟩
  · intro h
    obtain ⟨old, ⟨node, hnode, hold⟩, rfl⟩ := h
    refine ⟨_, ⟨node, hnode, rfl⟩, ?_⟩
    rw [hown]
    exact List.mem_map_of_mem hold

theorem Projection.mem_tables_outline {rename : Table → Table} {table : Table}
    {result : Projection} :
    table ∈ (result.outline rename).tables ↔ ∃ old ∈ result.tables, rename old = table := by
  cases result with
  | expr expression => exact Expr.mem_tables_outline
  | aliased expression label => exact Expr.mem_tables_outline
  | wildcard wild => simp [Projection.outline, Projection.tables, eq_comm]

theorem Query.mem_tables_outline {rename : Table → Table} {table : Table} {query : Query} :
    table ∈ (query.outline rename).tables ↔ ∃ old ∈ query.tables, rename old = table := by
  simp only [Query.mem_tables, Query.outline_eq, List.mem_map]
  constructor
  · intro h
    obtain ⟨_, ⟨result, hresult, rfl⟩, htable⟩ | ⟨_, ⟨predicate, hpredicate, rfl⟩, htable⟩ := h
    · obtain ⟨old, hold, rfl⟩ := Projection.mem_tables_outline.1 htable
      exact ⟨old, .inl ⟨result, hresult, hold⟩, rfl⟩
    · obtain ⟨old, hold, rfl⟩ := Expr.mem_tables_outline.1 htable
      exact ⟨old, .inr ⟨predicate, hpredicate, hold⟩, rfl⟩
  · intro h
    obtain ⟨old, ⟨result, hresult, hold⟩ | ⟨predicate, hpredicate, hold⟩, rfl⟩ := h
    · exact .inl ⟨_, ⟨result, hresult, rfl⟩, Projection.mem_tables_outline.2 ⟨old, hold, rfl⟩⟩
    · exact .inr ⟨_, ⟨predicate, hpredicate, rfl⟩, Expr.mem_tables_outline.2 ⟨old, hold, rfl⟩⟩

/-- A set lists no table twice. -/
theorem TableSet.nodup (tables : TableSet) : tables.toList.Nodup :=
  tables.increasing.imp fun {left right} hlt heq => by
    have hself : compare right right = .eq := Std.ReflCmp.compare_self
    rw [heq, hself] at hlt
    cases hlt

/-- An injective renaming keeps the number of tables. -/
theorem Query.length_tables_outline {rename : Table → Table} (h : Function.Injective rename)
    (query : Query) :
    (query.outline rename).tables.toList.length = query.tables.toList.length := by
  have hnodup : (query.tables.toList.map rename).Nodup := by
    refine List.pairwise_map.2 (query.tables.nodup.imp ?_)
    exact fun hne heq => hne (h heq)
  have hperm : (query.outline rename).tables.toList.Perm (query.tables.toList.map rename) := by
    refine (List.perm_ext_iff_of_nodup (TableSet.nodup _) hnodup).2 fun table => ?_
    rw [List.mem_map]
    exact Query.mem_tables_outline
  rw [hperm.length_eq, List.length_map]

/-! ## Kinds of tokens -/

section Kinds

open SqlToken

/-- The kinds of a separated list are the kinds of its separators and items. -/
theorem map_kind_separated (separator : SqlToken) (items : List (List SqlToken)) :
    (separated separator items).map kind =
      separated separator.kind (items.map (List.map kind)) := by
  induction items with
  | nil => rfl
  | cons first rest ih =>
    cases rest with
    | nil => simp [separated]
    | cons second others =>
      simp only [separated, List.map_cons, List.intercalate_cons_cons, List.map_append] at ih ⊢
      rw [ih]
      rfl

/-- The kinds of a clause are those of its keywords, separators and items. -/
theorem map_kind_clause (keywords : List String) (separator : SqlToken)
    (items : List (List SqlToken)) :
    (SqlToken.clause keywords separator items).map kind =
      SqlToken.clause keywords separator.kind (items.map (List.map kind)) := by
  unfold SqlToken.clause
  by_cases hnil : items = []
  · simp [hnil]
  · have hwords : (keywords.map word).map kind = keywords.map word := by
      rw [List.map_map]
      rfl
    rw [if_neg hnil, if_neg (by simpa using hnil), List.map_append, map_kind_separated, hwords]

theorem map_kind_parenthesized (items : List (List SqlToken)) :
    (parenthesized items).map kind = parenthesized (items.map (List.map kind)) := by
  simp [parenthesized, map_kind_separated, kind, comma]

/-- The content of a text does not show in the kind of its token. -/
theorem kind_outline (value : Literal) :
    value.outline.constant.token.kind = value.constant.token.kind := by
  cases value <;> rfl

theorem map_kind_select (items tables conditions terms : List (List SqlToken)) :
    (select items tables conditions terms).map kind =
      select (items.map (List.map kind)) (tables.map (List.map kind))
        (conditions.map (List.map kind)) (terms.map (List.map kind)) := by
  have hcomma : comma.kind = comma := rfl
  have hselect : (word "SELECT").kind = word "SELECT" := rfl
  have hand : (word "AND").kind = word "AND" := rfl
  simp only [select, List.map_cons, List.map_append, map_kind_separated, map_kind_clause, hcomma,
    hselect, hand]

/-- The kinds of an operator are its tokens. -/
theorem map_kind_operator (op : BinaryOp) : (operator op).map kind = operator op := by
  cases op <;> rfl

variable {rename : Table → Table}

/-- An item has the kinds of its outline if its expression does. -/
theorem kinds_projection {result : Projection}
    (h : ∀ e ∈ result.expression?,
      (e.outline rename).sqlTree.tokens.map kind = e.sqlTree.tokens.map kind) :
    (result.outline rename).sqlTree.tokens.map kind = result.sqlTree.tokens.map kind := by
  cases result with
  | expr expression => exact h expression rfl
  | aliased expression label =>
    have hexpression := h expression rfl
    simp [Projection.outline, Projection.sqlTree, SqlItem.tokens, hexpression, kind]
  | wildcard table => rfl

/-- A term has the kinds of its outline if the expression of its key does. -/
theorem kinds_term {term : Option SortKey}
    (h : ∀ key ∈ term, (key.expression.outline rename).sqlTree.tokens.map kind =
      key.expression.sqlTree.tokens.map kind) :
    (SortKey.sqlTerm (term.map (SortKey.outline rename))).tokens.map kind =
      (SortKey.sqlTerm term).tokens.map kind := by
  cases term with
  | none => rfl
  | some key =>
    obtain ⟨expression, direction⟩ := key
    have hexpression := h ⟨expression, direction⟩ rfl
    simp only [Option.map_some, SortKey.outline, SortKey.sqlTerm, SortKey.sqlTree, SqlTerm.tokens,
      List.map_append, hexpression]

/-- A statement has the kinds of its outline if its expressions do. -/
theorem kinds_query (hrename : Function.Injective rename) {query : Query}
    (h : ∀ e ∈ query.expressions,
      (e.outline rename).sqlTree.tokens.map kind = e.sqlTree.tokens.map kind) :
    (query.outline rename).sqlTree.tokens.map kind = query.sqlTree.tokens.map kind := by
  have hresults : ∀ result ∈ query.results,
      (result.outline rename).sqlTree.tokens.map kind = result.sqlTree.tokens.map kind :=
    fun result hresult => kinds_projection fun e he =>
      h e (mem_expressions_of_mem_results hresult he)
  have hterms : ∀ term ∈ query.terms,
      (SortKey.sqlTerm (term.map (SortKey.outline rename))).tokens.map kind =
        (SortKey.sqlTerm term).tokens.map kind := by
    intro term hterm
    exact kinds_term fun key hkey => h _ (mem_expressions_of_mem_terms hterm hkey)
  -- Of the tables only their number shows.
  have htables : ∀ tables : List Table,
      (tables.map fun table => [name table.name]).map (List.map kind) =
        List.replicate tables.length [name ""] := by
    intro tables
    induction tables with
    | nil => rfl
    | cons first rest ih => rw [List.map_cons, List.map_cons, ih]; rfl
  have hlength := Query.length_tables_outline hrename query
  rw [tokens_query, tokens_query, map_kind_select, map_kind_select, htables, htables, hlength,
    Query.terms_outline, Query.outline_eq]
  simp only [List.map_map, Function.comp_def]
  rw [List.map_congr_left hresults, List.map_congr_left hterms,
    List.map_congr_left fun e he => h e (mem_expressions_of_mem_predicates he)]

/-- Expressions and statements have the kinds of their outlines. -/
theorem kinds_trees (hrename : Function.Injective rename) :
    TreeInduction
      (fun e => (e.outline rename).sqlTree.tokens.map kind = e.sqlTree.tokens.map kind)
      (fun query => (query.outline rename).sqlTree.tokens.map kind =
        query.sqlTree.tokens.map kind) where
  binary hleft hright := by
    simp [Expr.outline, Expr.sqlTree, SqlExpr.tokens, hleft, hright, map_kind_operator]
  unary hoperand := by simp [Expr.outline, Expr.sqlTree, SqlExpr.tokens, hoperand]
  column c := rfl
  literal value := by
    simp [Expr.outline, Expr.sqlTree, SqlExpr.tokens, kind_outline]
  call {function args} hargs := by
    simp only [Expr.outline_call, Expr.sqlTree_call, SqlExpr.tokens_call, List.map_cons,
      map_kind_parenthesized, List.map_map, Function.comp_def]
    rw [List.map_congr_left hargs]
  inList helement := by
    simp [Expr.outline, Expr.sqlTree, SqlExpr.tokens, helement, map_kind_parenthesized,
      kind_outline, Function.comp_def]
  join hcarrier := hcarrier
  existsRow hquery := by simp [Expr.outline, Expr.sqlTree, SqlExpr.tokens, hquery]
  query hexpressions := kinds_query hrename hexpressions

end Kinds

/-! ## No comments -/

section Comments

open SqlToken

variable {content : String}

theorem comment_ne_comma : comment content ≠ comma := by simp [comma]

/-- A separated list has no comment if its separator is none and its items have none. -/
theorem comment_not_mem_separated (separator : SqlToken) {items : List (List SqlToken)}
    (hseparator : comment content ≠ separator) (h : ∀ item ∈ items, comment content ∉ item) :
    comment content ∉ separated separator items := by
  induction items with
  | nil => exact List.not_mem_nil
  | cons first rest ih =>
    have hfirst := h first List.mem_cons_self
    cases rest with
    | nil => simpa [separated] using hfirst
    | cons second others =>
      have hrest := ih fun item hitem => h item (List.mem_cons_of_mem first hitem)
      unfold separated at hrest ⊢
      rw [List.intercalate_cons_cons]
      simp [hfirst, hrest, hseparator]

theorem comment_not_mem_clause {keywords : List String} (separator : SqlToken)
    {items : List (List SqlToken)} (hseparator : comment content ≠ separator)
    (h : ∀ item ∈ items, comment content ∉ item) :
    comment content ∉ SqlToken.clause keywords separator items := by
  have hitems := comment_not_mem_separated separator hseparator h
  unfold SqlToken.clause
  split
  · exact List.not_mem_nil
  · simp [hitems]

theorem comment_not_mem_parenthesized {items : List (List SqlToken)}
    (h : ∀ item ∈ items, comment content ∉ item) : comment content ∉ parenthesized items := by
  have hitems := comment_not_mem_separated comma comment_ne_comma h
  simp [parenthesized, hitems]

/-- A statement has no comment if its expressions have none. -/
theorem comment_not_mem_query {query : Query}
    (h : ∀ e ∈ query.expressions, comment content ∉ e.sqlTree.tokens) :
    comment content ∉ query.sqlTree.tokens := by
  have hitems : ∀ item ∈ query.results.map (fun result => result.sqlTree.tokens),
      comment content ∉ item := by
    intro item hitem
    obtain ⟨result, hresult, rfl⟩ := List.mem_map.1 hitem
    have hexpression := fun e he => h e (mem_expressions_of_mem_results hresult he)
    cases result with
    | expr expression => exact hexpression expression rfl
    | aliased expression label =>
      simp [Projection.sqlTree, SqlItem.tokens, hexpression expression rfl]
    | wildcard table => simp [Projection.sqlTree, SqlItem.tokens]
  have htables : ∀ item ∈ query.tables.toList.map (fun table => [name table.name]),
      comment content ∉ item := by
    intro item hitem
    obtain ⟨table, -, rfl⟩ := List.mem_map.1 hitem
    simp
  have hconditions : ∀ item ∈ query.predicates.map (fun e => e.sqlTree.tokens),
      comment content ∉ item := by
    intro item hitem
    obtain ⟨predicate, hpredicate, rfl⟩ := List.mem_map.1 hitem
    exact h predicate (mem_expressions_of_mem_predicates hpredicate)
  have hterms : ∀ item ∈ query.terms.map (fun term => (SortKey.sqlTerm term).tokens),
      comment content ∉ item := by
    intro item hitem
    obtain ⟨term, hterm, rfl⟩ := List.mem_map.1 hitem
    cases term with
    | none => simp [SortKey.sqlTerm, SqlTerm.tokens]
    | some key =>
      obtain ⟨expression, direction⟩ := key
      have hkey := h expression (mem_expressions_of_mem_terms hterm rfl)
      simp [SortKey.sqlTerm, SortKey.sqlTree, SqlTerm.tokens, hkey]
  rw [tokens_query]
  simp [select, comment_not_mem_separated comma comment_ne_comma hitems,
    comment_not_mem_clause comma comment_ne_comma htables,
    comment_not_mem_clause (word "AND") (by simp) hconditions,
    comment_not_mem_clause comma comment_ne_comma hterms]

/-- Expressions and statements are written without comments. -/
theorem comment_not_mem_trees (content : String) :
    TreeInduction (fun e => comment content ∉ e.sqlTree.tokens)
      (fun query => comment content ∉ query.sqlTree.tokens) where
  binary {op left right} hleft hright := by
    have hop : comment content ∉ operator op := by cases op <;> simp [operator]
    simp [Expr.sqlTree, SqlExpr.tokens, hleft, hright, hop]
  unary hoperand := by simp [Expr.sqlTree, SqlExpr.tokens, hoperand]
  column c := by simp [Expr.sqlTree, SqlExpr.tokens]
  literal value := by
    have htoken : ∀ c : SqlConstant, comment content ≠ c.token := by
      intro c
      cases c <;> simp [SqlConstant.token]
    simp [Expr.sqlTree, SqlExpr.tokens, htoken]
  call {function args} hargs := by
    have hall : comment content ∉ parenthesized (args.map fun arg => arg.sqlTree.tokens) := by
      apply comment_not_mem_parenthesized
      simpa using hargs
    simpa [Expr.sqlTree_call, SqlExpr.tokens_call, Function.comp_def] using hall
  inList {element values} helement := by
    have hall : comment content ∉
        parenthesized (values.map fun value => [value.constant.token]) := by
      apply comment_not_mem_parenthesized
      intro item hitem
      obtain ⟨value, -, rfl⟩ := List.mem_map.1 hitem
      generalize value.constant = c
      cases c <;> simp [SqlConstant.token]
    simp [Expr.sqlTree, SqlExpr.tokens, helement, hall, Function.comp_def]
  join hcarrier := hcarrier
  existsRow hquery := by simp [Expr.sqlTree, SqlExpr.tokens, hquery]
  query hexpressions := comment_not_mem_query hexpressions

end Comments

/-! ## The text of a statement -/

/-- The text of a statement is split into exactly the tokens of its tree and holds no comment, and
statements that differ only in the contents of texts, in the names of columns and aliases, and by an
injective renaming of tables are split into tokens of the same kinds. -/
theorem sqlTokens?_sql (query : Query) :
    sqlTokens? (sql query).toList = some query.sqlTree.tokens ∧
      (∀ content, SqlToken.comment content ∉ query.sqlTree.tokens) ∧
      ∀ rename : Table → Table, Function.Injective rename →
        ∀ other : Query, query.outline rename = other.outline id →
          (sqlTokens? (sql other).toList).map (List.map SqlToken.kind) =
            (sqlTokens? (sql query).toList).map (List.map SqlToken.kind) := by
  refine ⟨sqlTokens?_query query, fun content => (comment_not_mem_trees content).statement query, ?_⟩
  intro rename hrename other hsame
  have hother := (kinds_trees Function.injective_id).statement other
  have hquery := (kinds_trees hrename).statement query
  rw [sqlTokens?_query, sqlTokens?_query, Option.map_some, Option.map_some, ← hother, ← hsame,
    hquery]

/-- A statement with one alias and one condition on a column of a table. -/
def labelled (table : Table) (column label content : String) : Query :=
  ⟨[.aliased (.column ⟨table, column⟩) label],
    [.binary .equal (.column ⟨table, column⟩) (.literal (.text content))], []⟩

/-- Quotes and comment signs in every name and text, and a new name for the table, keep the kinds of
all tokens. -/
theorem kinds_of_hostile_contents :
    Function.Injective (fun table : Table => (⟨"old" ++ table.name⟩ : Table)) ∧
      (labelled ⟨"t"⟩ "a" "b" "c").outline (fun table => ⟨"old" ++ table.name⟩) =
        (labelled ⟨"oldt"⟩ "\"--" "/*" "' OR 1=1 --").outline id ∧
      (sqlTokens? (sql (labelled ⟨"oldt"⟩ "\"--" "/*" "' OR 1=1 --")).toList).map
          (List.map SqlToken.kind) =
        (sqlTokens? (sql (labelled ⟨"t"⟩ "a" "b" "c")).toList).map (List.map SqlToken.kind) := by
  have hrename : Function.Injective (fun table : Table => (⟨"old" ++ table.name⟩ : Table)) := by
    intro left right h
    cases left
    cases right
    simpa using h
  have hsame : (labelled ⟨"t"⟩ "a" "b" "c").outline (fun table => ⟨"old" ++ table.name⟩) =
      (labelled ⟨"oldt"⟩ "\"--" "/*" "' OR 1=1 --").outline id := by
    simp [labelled, Query.outline_eq, Projection.outline, Expr.outline, Column.outline,
      Literal.outline]
  exact ⟨hrename, hsame, (sqlTokens?_sql _).2.2 _ hrename _ hsame⟩

end SqlSelect
