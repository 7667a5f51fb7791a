import Mathlib.Data.List.Forall2
import SqlSelect.Codec.Kind
import SqlSelect.Proofs.Binary64.Nearest
import SqlSelect.Proofs.Calendar.Syntax

/-!
# The JSON forms of a value

Which trees spell a value is said here by recursion on the value, without a reader. A record is spelled
by an object that holds every field exactly once, in any order and among any other keys, or by an array
of exactly its fields in order. A variant without payload is spelled by its name, or by an object with
the name as its one key and null under it, and every other variant by an object with its name as the
one key. A list is an array in order. Numbers, names and timestamps have more than one spelling too.
-/

namespace SqlSelect

/-! ## Shapes -/

namespace Json

/-- The trees that an object holds under a key, in order. -/
def held (name : String) (members : List (Option String × Json)) : List Json :=
  (members.filter fun m => m.1 = some name).map Prod.snd

@[simp] theorem held_nil (name : String) : held name [] = [] := rfl

theorem held_cons_self (name : String) (tree : Json) (members : List (Option String × Json)) :
    held name ((some name, tree) :: members) = tree :: held name members := by
  simp [held]

theorem held_cons_of_ne {name key : String} (h : name ≠ key) (tree : Json)
    (members : List (Option String × Json)) :
    held name ((some key, tree) :: members) = held name members := by
  simp [held, Ne.symm h]

/-- The names of the fields of a record, each with the trees that spell its value. -/
abbrev Spellings := List (String × (Json → Prop))

/-- An object that holds every field exactly once, or an array of exactly the fields in order. -/
def IsRecord (fields : Spellings) : Json → Prop
  | object members => ∀ field ∈ fields, ∃ tree, held field.1 members = [tree] ∧ field.2 tree
  | array items => List.Forall₂ (fun field item => field.2 item) fields items
  | _ => False

/-- An array with the given items. -/
def IsArray (spells : List Json → Prop) : Json → Prop
  | array items => spells items
  | _ => False

/-- An object with the tag as its one key. -/
def IsTagged (tag : String) (payload : Json → Prop) (tree : Json) : Prop :=
  ∃ inner, tree = tagged tag inner ∧ payload inner

/-- A tag without payload, as a string or as the one key of an object that holds null. -/
def IsUnit (tag : String) (tree : Json) : Prop := tree = text tag ∨ tree = tagged tag null

/-- A tree of a whole text: it has no cut, and every key has a content. A string that is no key may
be without one. -/
inductive WellFormed : Json → Prop where
  | null : WellFormed null
  | bool (b : Bool) : WellFormed (bool b)
  | number (numeral : Numeral) : WellFormed (number numeral)
  | string (content : Option String) : WellFormed (string content)
  | array {items : List Json} (h : ∀ item ∈ items, item.WellFormed) : WellFormed (array items)
  | object {members : List (Option String × Json)} (hkeys : ∀ m ∈ members, m.1 ≠ none)
      (h : ∀ m ∈ members, m.2.WellFormed) : WellFormed (object members)

@[simp] theorem wellFormed_null : WellFormed null := .null

@[simp] theorem wellFormed_bool (b : Bool) : WellFormed (bool b) := .bool b

@[simp] theorem wellFormed_text (content : String) : WellFormed (text content) := .string _

@[simp] theorem wellFormed_array_iff {items : List Json} :
    WellFormed (array items) ↔ ∀ item ∈ items, item.WellFormed :=
  ⟨fun h => by cases h with | array hitems => exact hitems, .array⟩

@[simp] theorem wellFormed_object_iff {members : List (Option String × Json)} :
    WellFormed (object members) ↔ ∀ m ∈ members, m.1 ≠ none ∧ m.2.WellFormed := by
  constructor
  · intro h
    cases h with
    | object hkeys hvalues => exact fun m hm => ⟨hkeys m hm, hvalues m hm⟩
  · exact fun h => .object (fun m hm => (h m hm).1) fun m hm => (h m hm).2

@[simp] theorem wellFormed_tagged_iff {tag : String} {inner : Json} :
    WellFormed (tagged tag inner) ↔ inner.WellFormed := by
  simp [tagged, record]

/-- A number that is an integer without a point or an exponent; minus zero is none. -/
def IsInteger (number : Int) : Json → Prop
  | .number numeral =>
    numeral.fraction = [] ∧ numeral.exponent = none ∧
      if numeral.negative then number ≠ 0 ∧ number = -(Digits.value numeral.whole : Int)
      else number = Digits.value numeral.whole
  | _ => False

end Json

/-! ## Scalars and names -/

/-- A number to which the real is the nearest, or the name of a real that is not finite. -/
def Binary64.Spelled (x : Binary64) : Json → Prop
  | .number numeral => x.IsNearestTo numeral
  | .string (some name) =>
    (name = "NaN" ∧ x = quietNaN) ∨ (name = "inf" ∧ x = infinity) ∨
      (name = "-inf" ∧ x = negativeInfinity)
  | _ => False

/-- A string with one of the texts of the timestamp. -/
def Timestamp.Spelled (moment : Timestamp) : Json → Prop
  | .string (some content) => moment.SpelledBy content.toList
  | _ => False

/-- The name of an operator between two operands. -/
def BinaryOp.label : BinaryOp → String
  | .and => "And"
  | .or => "Or"
  | .equal => "Equal"
  | .notEqual => "NotEqual"
  | .is => "Is"
  | .isNot => "IsNot"
  | .greaterThan => "GreaterThan"
  | .greaterThanOrEqual => "GreaterThanOrEqual"
  | .lessThan => "LessThan"
  | .lessThanOrEqual => "LessThanOrEqual"

/-- The name of an operator on one operand. -/
def UnaryOp.label : UnaryOp → String
  | .not => "Not"

/-- The name of a function. -/
def FunctionName.label : FunctionName → String
  | .count => "Count"
  | .max => "Max"
  | .min => "Min"

/-- The name of a direction. -/
def Direction.label : Direction → String
  | .ascending => "Ascending"
  | .descending => "Descending"

/-- A table is a record of its name. -/
def Table.Spelled (table : Table) : Json → Prop :=
  Json.IsRecord [("name", (· = .text table.name))]

/-- A column is a record of its table and its name. -/
def Column.Spelled (column : Column) : Json → Prop :=
  Json.IsRecord [("table", column.table.Spelled), ("name", (· = .text column.name))]

/-- NULL has no payload, and every other literal is tagged. -/
def Literal.Spelled : Literal → Json → Prop
  | null => Json.IsUnit "Null"
  | integer number => Json.IsTagged "Integer" (Json.IsInteger number.toInt)
  | real x => Json.IsTagged "Real" x.Spelled
  | text content => Json.IsTagged "Text" (· = .text content)
  | date moment => Json.IsTagged "Date" moment.Spelled
  | blob bytes =>
    Json.IsTagged "Blob"
      (Json.IsArray (List.Forall₂ (fun byte => Json.IsInteger byte.toNat) bytes))

/-! ## Trees -/

mutual

/-- The trees that spell an expression. -/
def Expr.Spelled : Expr → Json → Prop
  | .binary op left right =>
    Json.IsTagged "Binary"
      (Json.IsRecord [("op", Json.IsUnit op.label), ("left", left.Spelled), ("right", right.Spelled)])
  | .unary op operand =>
    Json.IsTagged "Unary"
      (Json.IsRecord [("op", Json.IsUnit op.label), ("expr", operand.Spelled)])
  | .column c => Json.IsTagged "Column" c.Spelled
  | .literal value => Json.IsTagged "Value" value.Spelled
  | .call function args =>
    Json.IsTagged "Function"
      (Json.IsRecord [("func", Json.IsUnit function.label),
        ("args", Json.IsArray (Expr.SpelledEach args))])
  | .inList element values =>
    Json.IsTagged "InList"
      (Json.IsRecord [("expr", element.Spelled),
        ("values", Json.IsArray (List.Forall₂ Literal.Spelled values))])
  | .join left right carrier =>
    Json.IsTagged "Join"
      (Json.IsRecord [("left", left.Spelled), ("right", right.Spelled), ("expr", carrier.Spelled)])
  | .existsRow query => Json.IsTagged "Exists" query.Spelled

/-- The lists of trees that spell several expressions. -/
def Expr.SpelledEach : List Expr → List Json → Prop
  | [], trees => trees = []
  | first :: rest, trees =>
    ∃ tree more, first.Spelled tree ∧ Expr.SpelledEach rest more ∧ trees = tree :: more

/-- The trees that spell an item of a SELECT list. -/
def Projection.Spelled : Projection → Json → Prop
  | .expr expression => Json.IsTagged "Expression" expression.Spelled
  | .aliased expression label =>
    Json.IsTagged "Aliased"
      (Json.IsRecord [("expression", expression.Spelled), ("alias", (· = .text label))])
  | .wildcard table => Json.IsTagged "Wildcard" table.Spelled

/-- The lists of trees that spell several items. -/
def Projection.SpelledEach : List Projection → List Json → Prop
  | [], trees => trees = []
  | first :: rest, trees =>
    ∃ tree more, first.Spelled tree ∧ Projection.SpelledEach rest more ∧ trees = tree :: more

/-- The trees that spell a sort key. -/
def SortKey.Spelled : SortKey → Json → Prop
  | ⟨expression, direction⟩ =>
    Json.IsRecord [("expression", expression.Spelled), ("direction", Json.IsUnit direction.label)]

/-- The lists of trees that spell several sort keys. -/
def SortKey.SpelledEach : List SortKey → List Json → Prop
  | [], trees => trees = []
  | first :: rest, trees =>
    ∃ tree more, first.Spelled tree ∧ SortKey.SpelledEach rest more ∧ trees = tree :: more

/-- The trees that spell a sort rule. -/
def SortRule.Spelled : SortRule → Json → Prop
  | ⟨orderings⟩ => Json.IsRecord [("orderings", Json.IsArray (SortKey.SpelledEach orderings))]

/-- The lists of trees that spell several sort rules. -/
def SortRule.SpelledEach : List SortRule → List Json → Prop
  | [], trees => trees = []
  | first :: rest, trees =>
    ∃ tree more, first.Spelled tree ∧ SortRule.SpelledEach rest more ∧ trees = tree :: more

/-- The trees that spell a statement. -/
def Query.Spelled : Query → Json → Prop
  | ⟨results, predicates, order⟩ =>
    Json.IsRecord [("results", Json.IsArray (Projection.SpelledEach results)),
      ("predicates", Json.IsArray (Expr.SpelledEach predicates)),
      ("order", Json.IsArray (SortRule.SpelledEach order))]

end

/-! ## Lists -/

/-- A list is spelled by trees that spell its members one by one. -/
theorem each_eq_forall₂ {α : Type} (each : List α → List Json → Prop) {spelled : α → Json → Prop}
    (hnil : ∀ trees, each [] trees ↔ trees = [])
    (hcons : ∀ first rest trees, each (first :: rest) trees ↔
      ∃ tree more, spelled first tree ∧ each rest more ∧ trees = tree :: more)
    (values : List α) : each values = List.Forall₂ spelled values := by
  funext trees
  apply propext
  induction values generalizing trees with
  | nil => rw [hnil, List.forall₂_nil_left_iff]
  | cons first rest ih => simp only [hcons, ih, List.forall₂_cons_left_iff]

theorem Expr.spelled_call (function : FunctionName) (args : List Expr) :
    (Expr.call function args).Spelled =
      Json.IsTagged "Function"
        (Json.IsRecord [("func", Json.IsUnit function.label),
          ("args", Json.IsArray (List.Forall₂ Expr.Spelled args))]) := by
  rw [Expr.Spelled, each_eq_forall₂ Expr.SpelledEach (fun _ => .rfl) fun _ _ _ => .rfl]

theorem SortRule.spelled_eq (rule : SortRule) :
    rule.Spelled =
      Json.IsRecord [("orderings", Json.IsArray (List.Forall₂ SortKey.Spelled rule.orderings))] := by
  cases rule
  rw [SortRule.Spelled, each_eq_forall₂ SortKey.SpelledEach (fun _ => .rfl) fun _ _ _ => .rfl]

/-- A statement is spelled by its three lists. -/
theorem Query.spelled_eq (query : Query) :
    query.Spelled =
      Json.IsRecord [("results", Json.IsArray (List.Forall₂ Projection.Spelled query.results)),
        ("predicates", Json.IsArray (List.Forall₂ Expr.Spelled query.predicates)),
        ("order", Json.IsArray (List.Forall₂ SortRule.Spelled query.order))] := by
  cases query
  rw [Query.Spelled, each_eq_forall₂ Projection.SpelledEach (fun _ => .rfl) fun _ _ _ => .rfl,
    each_eq_forall₂ Expr.SpelledEach (fun _ => .rfl) fun _ _ _ => .rfl,
    each_eq_forall₂ SortRule.SpelledEach (fun _ => .rfl) fun _ _ _ => .rfl]

/-! ## Kinds -/

/-- The trees that spell a value of a kind. -/
def Kind.Spelled : (kind : Kind) → kind.Carrier → Json → Prop
  | .text, (content : String) => (· = .text content)
  | .integer, (number : Int64) => Json.IsInteger number.toInt
  | .byte, (number : UInt8) => Json.IsInteger number.toNat
  | .real, (x : Binary64) => x.Spelled
  | .timestamp, (moment : Timestamp) => moment.Spelled
  | .binaryOp, (op : BinaryOp) => Json.IsUnit op.label
  | .unaryOp, (op : UnaryOp) => Json.IsUnit op.label
  | .function, (called : FunctionName) => Json.IsUnit called.label
  | .direction, (way : Direction) => Json.IsUnit way.label
  | .table, (owner : Table) => owner.Spelled
  | .column, (c : Column) => c.Spelled
  | .literal, (value : Literal) => value.Spelled
  | .expr, (e : Expr) => e.Spelled
  | .projection, (result : Projection) => result.Spelled
  | .sortKey, (key : SortKey) => key.Spelled
  | .sortRule, (rule : SortRule) => rule.Spelled
  | .query, (statement : Query) => statement.Spelled
  | .list item, values => Json.IsArray (List.Forall₂ item.Spelled values)

end SqlSelect
