import SqlSelect.Each
import SqlSelect.Tree.Basic

/-!
# What a tree feeds to a hash

A hash of a tree is computed from a sequence of numbers. Every node gives the number of its variant
and then its parts in order; a list gives its length first, a text its bytes and an end mark that
no text contains, and everything else a fixed count of numbers. So equal trees give equal
sequences, and no part can run into the next one. How the numbers are mixed into one is not said. Nor
does it matter which numbers stand for a variant or for a timestamp, as long as they tell it from the
others; they are chosen here.
-/

namespace SqlSelect

/-- The bytes of a text and a number that no byte of a text has. -/
def textFeed (content : String) : List Nat := (nameBytes content).map UInt8.toNat ++ [255]

/-- The number of a list's items and what each of them feeds. -/
def listFeed (items : List (List Nat)) : List Nat := items.length :: items.flatten

/-- The parts of a timestamp, with the year counted from the first one. Any other fixed count of numbers
that determines the timestamp would do. -/
def Timestamp.feed (t : Timestamp) : List Nat :=
  [(t.year + 262143).toNat, t.month, t.day, t.hour, t.minute, t.second, t.nano]

/-- What a literal feeds. Reals feed their bits. -/
def Literal.feed : Literal → List Nat
  | .null => [0]
  | .integer number => [1, number.toUInt64.toNat]
  | .real x => [2, x.word]
  | .text content => 3 :: textFeed content
  | .date moment => 4 :: moment.feed
  | .blob bytes => 5 :: bytes.length :: bytes.map UInt8.toNat

/-- The place of an operator among the operators. -/
def BinaryOp.feed : BinaryOp → List Nat
  | .and => [0]
  | .or => [1]
  | .equal => [2]
  | .notEqual => [3]
  | .is => [4]
  | .isNot => [5]
  | .greaterThan => [6]
  | .greaterThanOrEqual => [7]
  | .lessThan => [8]
  | .lessThanOrEqual => [9]

/-- There is one such operator only, so this number could as well be left out. -/
def UnaryOp.feed : UnaryOp → List Nat
  | .not => [0]

/-- The place of a function among the functions. -/
def FunctionName.feed : FunctionName → List Nat
  | .count => [0]
  | .max => [1]
  | .min => [2]

/-- The place of a direction among the directions. -/
def Direction.feed : Direction → List Nat
  | .ascending => [0]
  | .descending => [1]

/-- A table feeds its name. -/
def Table.feed (table : Table) : List Nat := textFeed table.name

/-- A column feeds its table and its name. -/
def Column.feed (column : Column) : List Nat := column.table.feed ++ textFeed column.name

mutual

/-- What an expression feeds. -/
def Expr.feed : Expr → List Nat
  | .binary op left right => 0 :: (op.feed ++ (left.feed ++ right.feed))
  | .unary op operand => 1 :: (op.feed ++ operand.feed)
  | .column c => 2 :: c.feed
  | .literal value => 3 :: value.feed
  | .call function args => 4 :: (function.feed ++ listFeed (Expr.feedEach args))
  | .inList element values =>
    5 :: (element.feed ++ listFeed (values.map Literal.feed))
  | .join left right carrier => 6 :: (left.feed ++ (right.feed ++ carrier.feed))
  | .existsRow query => 7 :: query.feed

/-- What each of several expressions feeds. -/
def Expr.feedEach : List Expr → List (List Nat)
  | [] => []
  | first :: rest => first.feed :: Expr.feedEach rest

/-- What an item of a SELECT list feeds. -/
def Projection.feed : Projection → List Nat
  | .expr expression => 0 :: expression.feed
  | .aliased expression label => 1 :: (expression.feed ++ textFeed label)
  | .wildcard table => 2 :: table.feed

/-- What each of several items feeds. -/
def Projection.feedEach : List Projection → List (List Nat)
  | [] => []
  | first :: rest => first.feed :: Projection.feedEach rest

/-- What a sort key feeds. -/
def SortKey.feed : SortKey → List Nat
  | ⟨expression, direction⟩ => expression.feed ++ direction.feed

/-- What each of several sort keys feeds. -/
def SortKey.feedEach : List SortKey → List (List Nat)
  | [] => []
  | first :: rest => first.feed :: SortKey.feedEach rest

/-- What a sort rule feeds. -/
def SortRule.feed : SortRule → List Nat
  | ⟨orderings⟩ => listFeed (SortKey.feedEach orderings)

/-- What each of several sort rules feeds. -/
def SortRule.feedEach : List SortRule → List (List Nat)
  | [] => []
  | first :: rest => first.feed :: SortRule.feedEach rest

/-- What a statement feeds. -/
def Query.feed : Query → List Nat
  | ⟨results, predicates, order⟩ =>
    listFeed (Projection.feedEach results) ++
      (listFeed (Expr.feedEach predicates) ++ listFeed (SortRule.feedEach order))

end

theorem Expr.feed_call (function : FunctionName) (args : List Expr) :
    (Expr.call function args).feed = 4 :: (function.feed ++ listFeed (args.map Expr.feed)) := by
  rw [Expr.feed, each_eq_map Expr.feedEach rfl fun _ _ => rfl]

theorem SortRule.feed_eq (rule : SortRule) :
    rule.feed = listFeed (rule.orderings.map SortKey.feed) := by
  cases rule
  rw [SortRule.feed, each_eq_map SortKey.feedEach rfl fun _ _ => rfl]

/-- A statement feeds its three lists. -/
theorem Query.feed_eq (query : Query) :
    query.feed =
      listFeed (query.results.map Projection.feed) ++
        (listFeed (query.predicates.map Expr.feed) ++
          listFeed (query.order.map SortRule.feed)) := by
  cases query
  rw [Query.feed, each_eq_map Projection.feedEach rfl fun _ _ => rfl,
    each_eq_map Expr.feedEach rfl fun _ _ => rfl,
    each_eq_map SortRule.feedEach rfl fun _ _ => rfl]

end SqlSelect
