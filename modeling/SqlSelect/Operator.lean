/-!
# Operators, functions and directions

The fixed words of a statement and how they are written in SQL.
-/

namespace SqlSelect

/-- An operator between two operands. -/
inductive BinaryOp where
  | and
  | or
  | equal
  | notEqual
  /-- Equality that takes NULL for a value. -/
  | is
  /-- Inequality that takes NULL for a value. -/
  | isNot
  | greaterThan
  | greaterThanOrEqual
  | lessThan
  | lessThanOrEqual
deriving DecidableEq

/-- An operator on one operand. -/
inductive UnaryOp where
  | not
deriving DecidableEq

/-- A function that an expression can call. -/
inductive FunctionName where
  | count
  | max
  | min
deriving DecidableEq

/-- The direction of a sort. -/
inductive Direction where
  | ascending
  | descending
deriving DecidableEq

/-- Sorts are ascending unless they say otherwise. -/
instance : Inhabited Direction := ⟨.ascending⟩

/-- The keyword or symbol of an operator between two operands. -/
def BinaryOp.symbol : BinaryOp → String
  | .and => "AND"
  | .or => "OR"
  | .equal => "="
  | .notEqual => "!="
  | .is => "IS"
  | .isNot => "IS NOT"
  | .greaterThan => ">"
  | .greaterThanOrEqual => ">="
  | .lessThan => "<"
  | .lessThanOrEqual => "<="

/-- The keyword of an operator on one operand. -/
def UnaryOp.symbol : UnaryOp → String
  | .not => "NOT"

/-- The name of a function. -/
def FunctionName.symbol : FunctionName → String
  | .count => "COUNT"
  | .max => "MAX"
  | .min => "MIN"

/-- The keyword of a direction. -/
def Direction.symbol : Direction → String
  | .ascending => "ASC"
  | .descending => "DESC"

end SqlSelect
