import SqlSelect.Binary64.Nearest
import SqlSelect.Calendar.Read
import SqlSelect.Codec.Kind

/-!
# The JSON form of every kind

The scalars, the fields of the records and the variants of the choices. A real that is not finite
travels as a string; any other string in the place of a real is an error of its own. An integer is
written without a point or an exponent.
-/

namespace SqlSelect

namespace Scalar

/-- A string with content. -/
def text : Json → Except DecodeError String
  | .string (some content) => .ok content
  | _ => .error .mismatch

/-- An integer of 64 bits. -/
def integer : Json → Except DecodeError Int64
  | .number numeral =>
    match numeral.toInt? with
    | some number =>
      if Int64.minValue.toInt ≤ number ∧ number ≤ Int64.maxValue.toInt then
        .ok (Int64.ofInt number)
      else .error .mismatch
    | none => .error .mismatch
  | _ => .error .mismatch

/-- An integer from 0 to 255. -/
def byte : Json → Except DecodeError UInt8
  | .number numeral =>
    match numeral.toInt? with
    | some number =>
      if 0 ≤ number ∧ number < 256 then .ok (UInt8.ofNat number.toNat) else .error .mismatch
    | none => .error .mismatch
  | _ => .error .mismatch

/-- The real that a string names. -/
def namedReal (content : String) : Except DecodeError Binary64 :=
  if content = "NaN" then .ok .quietNaN
  else if content = "inf" then .ok .infinity
  else if content = "-inf" then .ok .negativeInfinity
  else .error (.invalidReal content)

/-- A number within the range of the reals, or a string that names a real. -/
def real : Json → Except DecodeError Binary64
  | .number numeral =>
    match numeral.toBinary64? with
    | some x => .ok x
    | none => .error .mismatch
  | .string (some content) => namedReal content
  | _ => .error .mismatch

/-- A string that spells a timestamp. -/
def timestamp : Json → Except DecodeError Timestamp
  | .string (some content) =>
    match Timestamp.read? content.toList with
    | some moment => .ok moment
    | none => .error .mismatch
  | _ => .error .mismatch

end Scalar

namespace Kind

/-- Operators between two operands go by their names. -/
def binaryOpVariants : List (String × Payload BinaryOp) :=
  [("And", .unit .and), ("Or", .unit .or), ("Equal", .unit .equal), ("NotEqual", .unit .notEqual),
    ("Is", .unit .is), ("IsNot", .unit .isNot), ("GreaterThan", .unit .greaterThan),
    ("GreaterThanOrEqual", .unit .greaterThanOrEqual), ("LessThan", .unit .lessThan),
    ("LessThanOrEqual", .unit .lessThanOrEqual)]

/-- The kinds of literals. -/
def literalVariants : List (String × Payload Literal) :=
  [("Null", .unit .null), ("Integer", .single .integer .integer), ("Real", .single .real .real),
    ("Text", .single .text .text), ("Date", .single .timestamp .date),
    ("Blob", .single (.list .byte) .blob)]

/-- The kinds of nodes. -/
def exprVariants : List (String × Payload Expr) :=
  [("Binary", .record [("op", .binaryOp), ("left", .expr), ("right", .expr)]
      fun (op, left, right, _) => .binary op left right),
    ("Unary", .record [("op", .unaryOp), ("expr", .expr)]
      fun (op, operand, _) => .unary op operand),
    ("Column", .single .column .column),
    ("Value", .single .literal .literal),
    ("Function", .record [("func", .function), ("args", .list .expr)]
      fun (called, args, _) => .call called args),
    ("InList", .record [("expr", .expr), ("values", .list .literal)]
      fun (element, values, _) => .inList element values),
    ("Join", .record [("left", .column), ("right", .column), ("expr", .expr)]
      fun (left, right, carrier, _) => .join left right carrier),
    ("Exists", .single .query .existsRow)]

/-- The kinds of items in a SELECT list. -/
def projectionVariants : List (String × Payload Projection) :=
  [("Expression", .single .expr .expr),
    ("Aliased", .record [("expression", .expr), ("alias", .text)]
      fun (expression, label, _) => .aliased expression label),
    ("Wildcard", .single .table .wildcard)]

/-- The JSON form of a kind. -/
def form : (kind : Kind) → Form kind.Carrier
  | text => .scalar Scalar.text
  | integer => .scalar Scalar.integer
  | byte => .scalar Scalar.byte
  | real => .scalar Scalar.real
  | timestamp => .scalar Scalar.timestamp
  | binaryOp => .choice binaryOpVariants
  | unaryOp => .choice [("Not", .unit .not)]
  | function => .choice [("Count", .unit .count), ("Max", .unit .max), ("Min", .unit .min)]
  | direction => .choice [("Ascending", .unit .ascending), ("Descending", .unit .descending)]
  | table => .record [("name", .text)] fun (name, _) => ⟨name⟩
  | column => .record [("table", .table), ("name", .text)] fun (owner, name, _) => ⟨owner, name⟩
  | literal => .choice literalVariants
  | expr => .choice exprVariants
  | projection => .choice projectionVariants
  | sortKey =>
    .record [("expression", .expr), ("direction", .direction)]
      fun (expression, way, _) => ⟨expression, way⟩
  | sortRule => .record [("orderings", .list .sortKey)] fun (orderings, _) => ⟨orderings⟩
  | query =>
    .record
      [("results", .list .projection), ("predicates", .list .expr), ("order", .list .sortRule)]
      fun (results, predicates, order, _) => ⟨results, predicates, order⟩
  | list item => .list item id

end Kind

end SqlSelect
