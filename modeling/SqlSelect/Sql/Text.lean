import SqlSelect.Binary64.Notation
import SqlSelect.Calendar.Written
import SqlSelect.Text.Quoted
import SqlSelect.Tree.Nodes

/-!
# SQL text

How literals, names, expressions and statements are written in SQL. Names stand in double quotes
and texts in single quotes. Every operator has parentheses of its own, so the meaning of a text
never rests on precedence. The FROM clause lists the tables that the statement mentions, in the
order of their names; a clause that would list nothing is left out, only SELECT stays. Nothing is
checked, so a statement without results has a text too.
-/

namespace SqlSelect

/-- What can be written in SQL. -/
class SqlText (α : Type) where
  /-- The characters of the text. -/
  render : α → List Char

/-- The SQL text of a value. -/
def sql {α : Type} [SqlText α] (a : α) : String := String.ofList (SqlText.render a)

/-- A name in double quotes. -/
def quoteName (name : String) : List Char := Quoted.wrap '"' name.toList

namespace Literal

/-- Reals from 10^-4 to below 10^16 have no exponent, an exponent has no plus sign, and of two
equally near decimals the greater is written. -/
def realNotation : DecimalNotation := ⟨-4, 16, false, .awayFromZero⟩

/-- A hexadecimal digit in upper case. -/
def hexDigit (digit : Nat) : Char := Char.ofNat (if digit < 10 then 48 + digit else 55 + digit)

/-- A byte in two hexadecimal digits. -/
def byteText (byte : UInt8) : List Char := [hexDigit (byte.toNat / 16), hexDigit (byte.toNat % 16)]

/-- A real; a NaN is NULL, and an infinity is a number too great to be finite. -/
def realText (x : Binary64) : List Char :=
  if x.isNaN then "NULL".toList
  else if x.isInfinite then (if x.negative then "-9e999".toList else "9e999".toList)
  else realNotation.text x

/-- The text of a literal. -/
def render : Literal → List Char
  | null => "NULL".toList
  | integer number => Numeral.integerText number.toInt
  | real x => realText x
  | text content => Quoted.wrap '\'' content.toList
  | date moment => Quoted.wrap '\'' moment.millisecondText
  | blob bytes => 'X' :: '\'' :: bytes.flatMap byteText ++ ['\'']

end Literal

namespace Table

/-- The quoted name. -/
def render (table : Table) : List Char := quoteName table.name

end Table

namespace Column

/-- The quoted table, a point and the quoted name. -/
def render (column : Column) : List Char := column.table.render ++ '.' :: quoteName column.name

end Column

/-- The keyword of a clause and its items, or nothing if there are no items. -/
def clause (keyword separator : String) (items : List (List Char)) : List Char :=
  if items = [] then [] else keyword.toList ++ separator.toList.intercalate items

/-- The FROM clause of a set of tables. -/
def TableSet.fromClause (tables : TableSet) : List Char :=
  clause " FROM " ", " (tables.toList.map Table.render)

/-- Two operands with an operator between them. -/
def binaryText (op : BinaryOp) (left right : List Char) : List Char :=
  '(' :: left ++ ' ' :: op.symbol.toList ++ ' ' :: right ++ [')']

/-- An operator in front of its operand. -/
def unaryText (op : UnaryOp) (operand : List Char) : List Char :=
  '(' :: op.symbol.toList ++ ' ' :: operand ++ [')']

/-- A function and its arguments. -/
def callText (function : FunctionName) (args : List (List Char)) : List Char :=
  function.symbol.toList ++ '(' :: ",".toList.intercalate args ++ [')']

/-- A test for being one of several values. -/
def inListText (element : List Char) (values : List Literal) : List Char :=
  '(' :: element ++ " IN (".toList ++ ",".toList.intercalate (values.map Literal.render) ++
    "))".toList

/-- A test for a row of a subquery. -/
def existsText (query : List Char) : List Char := "EXISTS (".toList ++ query ++ [')']

/-- An expression under another name. -/
def aliasedText (expression : List Char) (label : String) : List Char :=
  expression ++ " AS ".toList ++ quoteName label

/-- All columns of a table. -/
def wildcardText (table : Table) : List Char := table.render ++ ".*".toList

/-- An expression and the direction in which it is sorted by. -/
def sortKeyText (expression : List Char) (direction : Direction) : List Char :=
  expression ++ ' ' :: direction.symbol.toList

/-- The keys of a sort rule. -/
def sortRuleText (keys : List (List Char)) : List Char := ",".toList.intercalate keys

/-- A statement from the texts of its parts. -/
def selectText (tables : TableSet) (results predicates order : List (List Char)) : List Char :=
  "SELECT ".toList ++ ", ".toList.intercalate results ++ tables.fromClause ++
    clause " WHERE " " AND " predicates ++ clause " ORDER BY " "," order

mutual

/-- The text of an expression. A join is not written; its carrier is. -/
def Expr.render : Expr → List Char
  | .binary op left right => binaryText op left.render right.render
  | .unary op operand => unaryText op operand.render
  | .column c => c.render
  | .literal value => value.render
  | .call function args => callText function (Expr.renderEach args)
  | .inList element values => inListText element.render values
  | .join _ _ carrier => carrier.render
  | .existsRow query => existsText query.render

/-- The texts of several expressions. -/
def Expr.renderEach : List Expr → List (List Char)
  | [] => []
  | first :: rest => first.render :: Expr.renderEach rest

/-- The text of an item of a SELECT list. -/
def Projection.render : Projection → List Char
  | .expr expression => expression.render
  | .aliased expression label => aliasedText expression.render label
  | .wildcard table => wildcardText table

/-- The texts of several items. -/
def Projection.renderEach : List Projection → List (List Char)
  | [] => []
  | first :: rest => first.render :: Projection.renderEach rest

/-- The text of a sort key. -/
def SortKey.render : SortKey → List Char
  | ⟨expression, direction⟩ => sortKeyText expression.render direction

/-- The texts of several sort keys. -/
def SortKey.renderEach : List SortKey → List (List Char)
  | [] => []
  | first :: rest => first.render :: SortKey.renderEach rest

/-- The text of a sort rule. -/
def SortRule.render : SortRule → List Char
  | ⟨orderings⟩ => sortRuleText (SortKey.renderEach orderings)

/-- The texts of several sort rules. -/
def SortRule.renderEach : List SortRule → List (List Char)
  | [] => []
  | first :: rest => first.render :: SortRule.renderEach rest

/-- The text of a statement. -/
def Query.render : Query → List Char
  | ⟨results, predicates, order⟩ =>
    selectText (Query.tables ⟨results, predicates, order⟩) (Projection.renderEach results)
      (Expr.renderEach predicates) (SortRule.renderEach order)

end

/-! ## Texts of lists -/

theorem Expr.render_call (function : FunctionName) (args : List Expr) :
    (Expr.call function args).render = callText function (args.map Expr.render) := by
  rw [Expr.render, each_eq_map Expr.renderEach rfl fun _ _ => rfl]

theorem SortRule.render_eq (rule : SortRule) :
    rule.render = sortRuleText (rule.orderings.map SortKey.render) := by
  cases rule
  rw [SortRule.render, each_eq_map SortKey.renderEach rfl fun _ _ => rfl]

/-- A statement is written from its tables and the texts of its parts. -/
theorem Query.render_eq (query : Query) :
    query.render =
      selectText query.tables (query.results.map Projection.render)
        (query.predicates.map Expr.render) (query.order.map SortRule.render) := by
  cases query
  rw [Query.render, each_eq_map Projection.renderEach rfl fun _ _ => rfl,
    each_eq_map Expr.renderEach rfl fun _ _ => rfl,
    each_eq_map SortRule.renderEach rfl fun _ _ => rfl]

instance : SqlText Literal := ⟨Literal.render⟩

instance : SqlText BinaryOp := ⟨fun op => op.symbol.toList⟩

instance : SqlText UnaryOp := ⟨fun op => op.symbol.toList⟩

instance : SqlText FunctionName := ⟨fun function => function.symbol.toList⟩

instance : SqlText Direction := ⟨fun direction => direction.symbol.toList⟩

instance : SqlText Table := ⟨Table.render⟩

instance : SqlText Column := ⟨Column.render⟩

instance : SqlText Expr := ⟨Expr.render⟩

instance : SqlText Projection := ⟨Projection.render⟩

instance : SqlText SortKey := ⟨SortKey.render⟩

instance : SqlText SortRule := ⟨SortRule.render⟩

instance : SqlText Query := ⟨Query.render⟩

end SqlSelect
