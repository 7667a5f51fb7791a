import SqlSelect.Proofs.Sql.Token
import SqlSelect.Sql.Text

/-!
# SQL trees

What an SQL text says, apart from how statements are kept: joins are gone, the tables of a FROM
clause are listed, and the keys of all sort rules stand in one list, in which a sort rule without
keys is a missing term. A literal is what SQL makes of it, so a NaN is NULL and a date is a text. A
tree is spelled out in tokens; a clause without items is left out.
-/

namespace SqlSelect

/-- A constant of SQL. -/
inductive SqlConstant where
  | null
  | number (numeral : Numeral)
  | text (content : String)
  | blob (bytes : List UInt8)
deriving DecidableEq

mutual

/-- An expression of SQL. -/
inductive SqlExpr where
  | constant (constant : SqlConstant)
  | column (table name : String)
  | binary (op : BinaryOp) (left right : SqlExpr)
  | unary (op : UnaryOp) (operand : SqlExpr)
  | call (function : FunctionName) (args : List SqlExpr)
  | inList (element : SqlExpr) (values : List SqlConstant)
  | existsRow (statement : SqlStatement)

/-- An item of a SELECT list. -/
inductive SqlItem where
  | expr (expression : SqlExpr)
  | aliased (expression : SqlExpr) (label : String)
  | wildcard (table : String)

/-- A term of an ORDER BY clause. -/
inductive SqlTerm where
  /-- Nothing where a term should be. -/
  | missing
  | key (expression : SqlExpr) (direction : Direction)

/-- A SELECT statement of SQL. -/
structure SqlStatement where
  items : List SqlItem
  tables : List String
  conditions : List SqlExpr
  terms : List SqlTerm

end

/-! ## Tokens -/

namespace SqlToken

/-- The tokens of an operator between two operands. -/
def operator : BinaryOp → List SqlToken
  | .and => [word "AND"]
  | .or => [word "OR"]
  | .equal => [mark "="]
  | .notEqual => [mark "!="]
  | .is => [word "IS"]
  | .isNot => [word "IS", word "NOT"]
  | .greaterThan => [mark ">"]
  | .greaterThanOrEqual => [mark ">="]
  | .lessThan => [mark "<"]
  | .lessThanOrEqual => [mark "<="]

/-- A comma. -/
def comma : SqlToken := mark ","

/-- Items with a separator between each two of them. -/
def separated (separator : SqlToken) (items : List (List SqlToken)) : List SqlToken :=
  [separator].intercalate items

/-- A list of items in parentheses. -/
def parenthesized (items : List (List SqlToken)) : List SqlToken :=
  mark "(" :: (separated comma items ++ [mark ")"])

/-- The keywords of a clause and its items, or nothing if there are no items. -/
def clause (keywords : List String) (separator : SqlToken) (items : List (List SqlToken)) :
    List SqlToken :=
  if items = [] then [] else keywords.map word ++ separated separator items

/-- A statement from the tokens of its parts. -/
def select (items tables conditions terms : List (List SqlToken)) : List SqlToken :=
  word "SELECT" :: (separated comma items ++ (clause ["FROM"] comma tables ++
    (clause ["WHERE"] (word "AND") conditions ++ clause ["ORDER", "BY"] comma terms)))

end SqlToken

/-- The token of a constant. -/
def SqlConstant.token : SqlConstant → SqlToken
  | .null => .word "NULL"
  | .number numeral => .number numeral
  | .text content => .text content
  | .blob bytes => .blob bytes

section Tokens

open SqlToken

mutual

/-- The tokens of an expression. -/
def SqlExpr.tokens : SqlExpr → List SqlToken
  | .constant c => [c.token]
  | .column table label => [name table, mark ".", name label]
  | .binary op left right =>
    mark "(" :: (left.tokens ++ (operator op ++ (right.tokens ++ [mark ")"])))
  | .unary op operand => mark "(" :: word op.symbol :: (operand.tokens ++ [mark ")"])
  | .call function args => word function.symbol :: parenthesized (SqlExpr.tokensEach args)
  | .inList element values =>
    mark "(" :: (element.tokens ++ word "IN" ::
      (parenthesized (values.map fun value => [value.token]) ++ [mark ")"]))
  | .existsRow statement => word "EXISTS" :: mark "(" :: (statement.tokens ++ [mark ")"])

/-- The tokens of several expressions. -/
def SqlExpr.tokensEach : List SqlExpr → List (List SqlToken)
  | [] => []
  | first :: rest => first.tokens :: SqlExpr.tokensEach rest

/-- The tokens of an item of a SELECT list. -/
def SqlItem.tokens : SqlItem → List SqlToken
  | .expr expression => expression.tokens
  | .aliased expression label => expression.tokens ++ [word "AS", name label]
  | .wildcard table => [name table, mark ".", mark "*"]

/-- The tokens of several items. -/
def SqlItem.tokensEach : List SqlItem → List (List SqlToken)
  | [] => []
  | first :: rest => first.tokens :: SqlItem.tokensEach rest

/-- The tokens of a term of an ORDER BY clause. -/
def SqlTerm.tokens : SqlTerm → List SqlToken
  | .missing => []
  | .key expression direction => expression.tokens ++ [word direction.symbol]

/-- The tokens of several terms. -/
def SqlTerm.tokensEach : List SqlTerm → List (List SqlToken)
  | [] => []
  | first :: rest => first.tokens :: SqlTerm.tokensEach rest

/-- The tokens of a statement. -/
def SqlStatement.tokens : SqlStatement → List SqlToken
  | ⟨items, tables, conditions, terms⟩ =>
    select (SqlItem.tokensEach items) (tables.map fun table => [name table])
      (SqlExpr.tokensEach conditions) (SqlTerm.tokensEach terms)

end

theorem SqlExpr.tokens_call (function : FunctionName) (args : List SqlExpr) :
    (SqlExpr.call function args).tokens =
      word function.symbol :: parenthesized (args.map SqlExpr.tokens) := by
  rw [SqlExpr.tokens, each_eq_map SqlExpr.tokensEach rfl fun _ _ => rfl]

/-- The tokens of a statement are those of its parts. -/
theorem SqlStatement.tokens_eq (statement : SqlStatement) :
    statement.tokens =
      select (statement.items.map SqlItem.tokens) (statement.tables.map fun table => [name table])
        (statement.conditions.map SqlExpr.tokens) (statement.terms.map SqlTerm.tokens) := by
  cases statement
  rw [SqlStatement.tokens, each_eq_map SqlItem.tokensEach rfl fun _ _ => rfl,
    each_eq_map SqlExpr.tokensEach rfl fun _ _ => rfl,
    each_eq_map SqlTerm.tokensEach rfl fun _ _ => rfl]

end Tokens

/-! ## The trees of expressions and statements -/

namespace SortRule

/-- The keys of a sort rule as terms of an ORDER BY clause: a rule without keys leaves one place
for a term empty. -/
def terms (rule : SortRule) : List (Option SortKey) :=
  if rule.orderings = [] then [none] else rule.orderings.map some

theorem terms_ne_nil (rule : SortRule) : rule.terms ≠ [] := by
  unfold terms
  split
  · simp
  · next hne => simpa using hne

end SortRule

namespace Query

/-- The terms of the ORDER BY clause. -/
def terms (query : Query) : List (Option SortKey) := query.order.flatMap SortRule.terms

/-- There are no terms only if there are no sort rules. -/
theorem terms_eq_nil_iff {query : Query} : query.terms = [] ↔ query.order = [] := by
  rw [terms, List.flatMap_eq_nil_iff]
  constructor
  · intro h
    exact List.eq_nil_iff_forall_not_mem.2 fun rule hrule => rule.terms_ne_nil (h rule hrule)
  · intro h rule hrule
    rw [h] at hrule
    exact absurd hrule List.not_mem_nil

end Query

namespace Literal

/-- The number that an infinity is written as. -/
def infiniteNumeral (negative : Bool) : Numeral := ⟨negative, [9], [], some 999⟩

/-- The constant that a real is in SQL. -/
def realConstant (x : Binary64) : SqlConstant :=
  if x.isNaN then .null
  else if x.isInfinite then .number (infiniteNumeral x.negative)
  else .number (realNotation.numeral x)

/-- The constant that a literal is in SQL. -/
def constant : Literal → SqlConstant
  | .null => .null
  | .integer number => .number (Numeral.ofInt number.toInt)
  | .real x => realConstant x
  | .text content => .text content
  | .date moment => .text (String.ofList moment.millisecondText)
  | .blob bytes => .blob bytes

end Literal

mutual

/-- The tree of an expression. A join has the tree of its carrier. -/
def Expr.sqlTree : Expr → SqlExpr
  | .binary op left right => .binary op left.sqlTree right.sqlTree
  | .unary op operand => .unary op operand.sqlTree
  | .column c => .column c.table.name c.name
  | .literal value => .constant value.constant
  | .call function args => .call function (Expr.sqlTreeEach args)
  | .inList element values => .inList element.sqlTree (values.map Literal.constant)
  | .join _ _ carrier => carrier.sqlTree
  | .existsRow query => .existsRow query.sqlTree

/-- The trees of several expressions. -/
def Expr.sqlTreeEach : List Expr → List SqlExpr
  | [] => []
  | first :: rest => first.sqlTree :: Expr.sqlTreeEach rest

/-- The tree of an item of a SELECT list. -/
def Projection.sqlTree : Projection → SqlItem
  | .expr expression => .expr expression.sqlTree
  | .aliased expression label => .aliased expression.sqlTree label
  | .wildcard table => .wildcard table.name

/-- The trees of several items. -/
def Projection.sqlTreeEach : List Projection → List SqlItem
  | [] => []
  | first :: rest => first.sqlTree :: Projection.sqlTreeEach rest

/-- The term of a sort key. -/
def SortKey.sqlTree : SortKey → SqlTerm
  | ⟨expression, direction⟩ => .key expression.sqlTree direction

/-- The terms of several sort keys. -/
def SortKey.sqlTreeEach : List SortKey → List SqlTerm
  | [] => []
  | first :: rest => first.sqlTree :: SortKey.sqlTreeEach rest

/-- The terms of a sort rule; one that is missing if there are no keys. -/
def SortRule.sqlTerms : SortRule → List SqlTerm
  | ⟨orderings⟩ => if orderings.isEmpty then [.missing] else SortKey.sqlTreeEach orderings

/-- The terms of several sort rules. -/
def SortRule.sqlTermsEach : List SortRule → List SqlTerm
  | [] => []
  | first :: rest => first.sqlTerms ++ SortRule.sqlTermsEach rest

/-- The tree of a statement. -/
def Query.sqlTree : Query → SqlStatement
  | ⟨results, predicates, order⟩ =>
    ⟨Projection.sqlTreeEach results,
      (Query.tables ⟨results, predicates, order⟩).toList.map Table.name,
      Expr.sqlTreeEach predicates, SortRule.sqlTermsEach order⟩

end

theorem Expr.sqlTree_call (function : FunctionName) (args : List Expr) :
    (Expr.call function args).sqlTree = .call function (args.map Expr.sqlTree) := by
  rw [Expr.sqlTree, each_eq_map Expr.sqlTreeEach rfl fun _ _ => rfl]

/-- The tree of a term, which may be missing. -/
def SortKey.sqlTerm : Option SortKey → SqlTerm
  | none => .missing
  | some key => key.sqlTree

/-- The trees of a sort rule are those of its terms. -/
theorem SortRule.sqlTerms_eq_map (rule : SortRule) :
    rule.sqlTerms = rule.terms.map SortKey.sqlTerm := by
  obtain ⟨orderings⟩ := rule
  cases orderings with
  | nil => rfl
  | cons first rest =>
    have hmap : SortKey.sqlTerm ∘ some = SortKey.sqlTree := rfl
    rw [SortRule.sqlTerms, each_eq_map SortKey.sqlTreeEach rfl fun _ _ => rfl]
    simp [SortRule.terms, hmap, SortKey.sqlTerm]

/-- The tree of a statement is made of the trees of its parts. -/
theorem Query.sqlTree_eq (query : Query) :
    query.sqlTree =
      ⟨query.results.map Projection.sqlTree, query.tables.toList.map Table.name,
        query.predicates.map Expr.sqlTree, query.terms.map SortKey.sqlTerm⟩ := by
  have hterms : query.order.flatMap SortRule.sqlTerms = query.terms.map SortKey.sqlTerm := by
    rw [Query.terms, List.map_flatMap, funext SortRule.sqlTerms_eq_map]
  rw [← hterms]
  cases query
  rw [Query.sqlTree, each_eq_map Projection.sqlTreeEach rfl fun _ _ => rfl,
    each_eq_map Expr.sqlTreeEach rfl fun _ _ => rfl,
    each_eq_flatMap SortRule.sqlTermsEach rfl fun _ _ => rfl]

end SqlSelect
