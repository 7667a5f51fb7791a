import SqlSelect.Proofs.Tree.Canonical

/-!
# Other reals in a tree

The reals of a tree are counted in the order in which its parts are written. A tree in which each real is
mapped to another one, which may depend on its number, is the same tree otherwise.
-/

namespace SqlSelect

/-- A list with each member mapped by its number, where a member counts as many numbers as its size. -/
def mapFrom {α β : Type} (size : α → Nat) (f : Nat → α → β) (start : Nat) : List α → List β
  | [] => []
  | first :: rest => f start first :: mapFrom size f (start + size first) rest

/-- A function that counts on by the size of each member maps the list by numbers. -/
theorem each_eq_mapFrom {α β : Type} (each : Nat → List α → List β) {size : α → Nat}
    {f : Nat → α → β} (hnil : ∀ start, each start [] = [])
    (hcons : ∀ start first rest,
      each start (first :: rest) = f start first :: each (start + size first) rest)
    (start : Nat) (items : List α) : each start items = mapFrom size f start items := by
  induction items generalizing start with
  | nil => exact hnil start
  | cons first rest ih => rw [hcons, ih, mapFrom]

section

-- The real in the place of the one with a number.
variable (f : Nat → Binary64 → Binary64)

/-- A literal with another real. -/
def Literal.mapReals (start : Nat) : Literal → Literal
  | .real x => .real (f start x)
  | value => value

mutual

/-- An expression with other reals, which are counted from `start` on. -/
def Expr.mapReals (start : Nat) : Expr → Expr
  | .binary op left right =>
    .binary op (left.mapReals start) (right.mapReals (start + left.reals.length))
  | .unary op operand => .unary op (operand.mapReals start)
  | .column c => .column c
  | .literal value => .literal (value.mapReals f start)
  | .call function args => .call function (Expr.mapRealsEach start args)
  | .inList element values =>
    .inList (element.mapReals start)
      (mapFrom (fun value => value.reals.length) (Literal.mapReals f) (start + element.reals.length)
        values)
  | .join left right carrier => .join left right (carrier.mapReals start)
  | .existsRow query => .existsRow (query.mapReals start)

/-- Several expressions with other reals. -/
def Expr.mapRealsEach (start : Nat) : List Expr → List Expr
  | [] => []
  | first :: rest => first.mapReals start :: Expr.mapRealsEach (start + first.reals.length) rest

/-- An item of a SELECT list with other reals. -/
def Projection.mapReals (start : Nat) : Projection → Projection
  | .expr expression => .expr (expression.mapReals start)
  | .aliased expression label => .aliased (expression.mapReals start) label
  | .wildcard table => .wildcard table

/-- Several items with other reals. -/
def Projection.mapRealsEach (start : Nat) : List Projection → List Projection
  | [] => []
  | first :: rest => first.mapReals start :: Projection.mapRealsEach (start + first.reals.length) rest

/-- A sort key with other reals. -/
def SortKey.mapReals (start : Nat) : SortKey → SortKey
  | ⟨expression, direction⟩ => ⟨expression.mapReals start, direction⟩

/-- Several sort keys with other reals. -/
def SortKey.mapRealsEach (start : Nat) : List SortKey → List SortKey
  | [] => []
  | first :: rest => first.mapReals start :: SortKey.mapRealsEach (start + first.reals.length) rest

/-- A sort rule with other reals. -/
def SortRule.mapReals (start : Nat) : SortRule → SortRule
  | ⟨orderings⟩ => ⟨SortKey.mapRealsEach start orderings⟩

/-- Several sort rules with other reals. -/
def SortRule.mapRealsEach (start : Nat) : List SortRule → List SortRule
  | [] => []
  | first :: rest => first.mapReals start :: SortRule.mapRealsEach (start + first.reals.length) rest

/-- A statement with other reals. -/
def Query.mapReals (start : Nat) : Query → Query
  | ⟨results, predicates, order⟩ =>
    ⟨Projection.mapRealsEach start results,
      Expr.mapRealsEach (start + (Projection.realsOfList results).length) predicates,
      SortRule.mapRealsEach
        (start + (Projection.realsOfList results).length + (Expr.realsOfList predicates).length) order⟩

end

/-! ## Lists of trees -/

theorem Expr.mapReals_call (start : Nat) (function : FunctionName) (args : List Expr) :
    (Expr.call function args).mapReals f start =
      .call function (mapFrom (fun e => e.reals.length) (Expr.mapReals f) start args) := by
  rw [Expr.mapReals, each_eq_mapFrom (Expr.mapRealsEach f) (fun _ => rfl) fun _ _ _ => rfl]

theorem SortRule.mapReals_eq (start : Nat) (rule : SortRule) :
    rule.mapReals f start =
      ⟨mapFrom (fun key => key.reals.length) (SortKey.mapReals f) start rule.orderings⟩ := by
  cases rule
  rw [SortRule.mapReals, each_eq_mapFrom (SortKey.mapRealsEach f) (fun _ => rfl) fun _ _ _ => rfl]

/-- The reals of a statement are counted through its three lists. -/
theorem Query.mapReals_eq (start : Nat) (query : Query) :
    query.mapReals f start =
      ⟨mapFrom (fun result => result.reals.length) (Projection.mapReals f) start query.results,
        mapFrom (fun e => e.reals.length) (Expr.mapReals f)
          (start + (query.results.flatMap Projection.reals).length) query.predicates,
        mapFrom (fun rule => rule.reals.length) (SortRule.mapReals f)
          (start + (query.results.flatMap Projection.reals).length +
            (query.predicates.flatMap Expr.reals).length) query.order⟩ := by
  cases query
  rw [Query.mapReals, each_eq_flatMap Projection.realsOfList rfl fun _ _ => rfl,
    each_eq_flatMap Expr.realsOfList rfl fun _ _ => rfl,
    each_eq_mapFrom (Projection.mapRealsEach f) (fun _ => rfl) fun _ _ _ => rfl,
    each_eq_mapFrom (Expr.mapRealsEach f) (fun _ => rfl) fun _ _ _ => rfl,
    each_eq_mapFrom (SortRule.mapRealsEach f) (fun _ => rfl) fun _ _ _ => rfl]

end

end SqlSelect
