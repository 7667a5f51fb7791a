import SqlSelect.Binary64.Notation
import SqlSelect.Calendar.Written
import SqlSelect.Codec.Kind
import SqlSelect.Each
import SqlSelect.Json.Text

/-!
# Encoding

The JSON tree of every kind of value. A record is an object with its fields in order, a variant
without payload is its name, and any other variant is an object with its name as the one key. A
real that is not finite is a string, and so is a timestamp; every NaN is written alike.
-/

namespace SqlSelect

/-- Reals from 10^-5 to below 10^16 have no exponent, an exponent has a plus or a minus sign, and
of two equally near decimals the one with the even last digit is written. -/
def jsonRealNotation : DecimalNotation := ⟨-5, 16, true, .toEven⟩

namespace Binary64

/-- A finite real as a number, any other as a string. -/
def encode (x : Binary64) : Json :=
  if x.isNaN then .text "NaN"
  else if x.isInfinite then .text (if x.negative then "-inf" else "inf")
  else .number (jsonRealNotation.numeral x)

end Binary64

namespace Literal

/-- The tree of a literal. -/
def encode : Literal → Json
  | null => .text "Null"
  | integer number => .tagged "Integer" (.number (.ofInt number.toInt))
  | real x => .tagged "Real" x.encode
  | text content => .tagged "Text" (.text content)
  | date moment => .tagged "Date" (.text (String.ofList moment.exactText))
  | blob bytes => .tagged "Blob" (.array (bytes.map fun byte => .number (.ofInt byte.toNat)))

end Literal

/-- The name of an operator between two operands. -/
def BinaryOp.encode : BinaryOp → Json
  | .and => .text "And"
  | .or => .text "Or"
  | .equal => .text "Equal"
  | .notEqual => .text "NotEqual"
  | .is => .text "Is"
  | .isNot => .text "IsNot"
  | .greaterThan => .text "GreaterThan"
  | .greaterThanOrEqual => .text "GreaterThanOrEqual"
  | .lessThan => .text "LessThan"
  | .lessThanOrEqual => .text "LessThanOrEqual"

/-- The name of an operator on one operand. -/
def UnaryOp.encode : UnaryOp → Json
  | .not => .text "Not"

/-- The name of a function. -/
def FunctionName.encode : FunctionName → Json
  | .count => .text "Count"
  | .max => .text "Max"
  | .min => .text "Min"

/-- The name of a direction. -/
def Direction.encode : Direction → Json
  | .ascending => .text "Ascending"
  | .descending => .text "Descending"

/-- The tree of a table. -/
def Table.encode (table : Table) : Json := .record [("name", .text table.name)]

/-- The tree of a column. -/
def Column.encode (column : Column) : Json :=
  .record [("table", column.table.encode), ("name", .text column.name)]

mutual

/-- The tree of an expression. -/
def Expr.encode : Expr → Json
  | .binary op left right =>
    .tagged "Binary" (.record [("op", op.encode), ("left", left.encode), ("right", right.encode)])
  | .unary op operand => .tagged "Unary" (.record [("op", op.encode), ("expr", operand.encode)])
  | .column c => .tagged "Column" c.encode
  | .literal value => .tagged "Value" value.encode
  | .call function args =>
    .tagged "Function"
      (.record [("func", function.encode), ("args", .array (Expr.encodeEach args))])
  | .inList element values =>
    .tagged "InList"
      (.record [("expr", element.encode), ("values", .array (values.map Literal.encode))])
  | .join left right carrier =>
    .tagged "Join"
      (.record [("left", left.encode), ("right", right.encode), ("expr", carrier.encode)])
  | .existsRow query => .tagged "Exists" query.encode

/-- The trees of several expressions. -/
def Expr.encodeEach : List Expr → List Json
  | [] => []
  | first :: rest => first.encode :: Expr.encodeEach rest

/-- The tree of an item of a SELECT list. -/
def Projection.encode : Projection → Json
  | .expr expression => .tagged "Expression" expression.encode
  | .aliased expression label =>
    .tagged "Aliased" (.record [("expression", expression.encode), ("alias", .text label)])
  | .wildcard table => .tagged "Wildcard" table.encode

/-- The trees of several items. -/
def Projection.encodeEach : List Projection → List Json
  | [] => []
  | first :: rest => first.encode :: Projection.encodeEach rest

/-- The tree of a sort key. -/
def SortKey.encode : SortKey → Json
  | ⟨expression, direction⟩ =>
    .record [("expression", expression.encode), ("direction", direction.encode)]

/-- The trees of several sort keys. -/
def SortKey.encodeEach : List SortKey → List Json
  | [] => []
  | first :: rest => first.encode :: SortKey.encodeEach rest

/-- The tree of a sort rule. -/
def SortRule.encode : SortRule → Json
  | ⟨orderings⟩ => .record [("orderings", .array (SortKey.encodeEach orderings))]

/-- The trees of several sort rules. -/
def SortRule.encodeEach : List SortRule → List Json
  | [] => []
  | first :: rest => first.encode :: SortRule.encodeEach rest

/-- The tree of a statement. -/
def Query.encode : Query → Json
  | ⟨results, predicates, order⟩ =>
    .record [("results", .array (Projection.encodeEach results)),
      ("predicates", .array (Expr.encodeEach predicates)),
      ("order", .array (SortRule.encodeEach order))]

end

/-- The tree of a value of a kind. -/
def encode : (kind : Kind) → kind.Carrier → Json
  | .text, content => .text content
  | .integer, number => .number (.ofInt number.toInt)
  | .byte, byte => .number (.ofInt byte.toNat)
  | .real, x => x.encode
  | .timestamp, moment => .text (String.ofList moment.exactText)
  | .binaryOp, op => op.encode
  | .unaryOp, op => op.encode
  | .function, function => function.encode
  | .direction, direction => direction.encode
  | .table, table => table.encode
  | .column, column => column.encode
  | .literal, literal => literal.encode
  | .expr, e => e.encode
  | .projection, projection => projection.encode
  | .sortKey, key => key.encode
  | .sortRule, rule => rule.encode
  | .query, query => query.encode
  | .list item, values => .array (values.map (encode item))

/-- The JSON text of a value of a kind. -/
def encodeText (kind : Kind) (value : kind.Carrier) : List Char := (encode kind value).render

/-! ## Trees of lists -/

theorem Expr.encode_call (function : FunctionName) (args : List Expr) :
    (Expr.call function args).encode =
      .tagged "Function"
        (.record [("func", function.encode), ("args", .array (args.map Expr.encode))]) := by
  rw [Expr.encode, each_eq_map Expr.encodeEach rfl fun _ _ => rfl]

theorem SortRule.encode_eq (rule : SortRule) :
    rule.encode = .record [("orderings", .array (rule.orderings.map SortKey.encode))] := by
  cases rule
  rw [SortRule.encode, each_eq_map SortKey.encodeEach rfl fun _ _ => rfl]

theorem Query.encode_eq (query : Query) :
    query.encode =
      .record [("results", .array (query.results.map Projection.encode)),
        ("predicates", .array (query.predicates.map Expr.encode)),
        ("order", .array (query.order.map SortRule.encode))] := by
  cases query
  rw [Query.encode, each_eq_map Projection.encodeEach rfl fun _ _ => rfl,
    each_eq_map Expr.encodeEach rfl fun _ _ => rfl,
    each_eq_map SortRule.encodeEach rfl fun _ _ => rfl]

end SqlSelect
