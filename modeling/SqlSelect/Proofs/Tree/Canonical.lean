import SqlSelect.Proofs.Tree.Induction
import SqlSelect.Tree.Canonical

/-!
# What a canonical form changes

The reals of a tree are all those that stand in it, at any depth: in operands and arguments, in lists
of literals, and in subqueries. The canonical form of a tree differs from the tree in its NaNs and
in nothing else, so a tree is its own canonical form exactly if each of its NaNs is the one that
reading produces.
-/

namespace SqlSelect

/-- The real that a literal is, if it is one. -/
def Literal.reals : Literal → List Binary64
  | .real x => [x]
  | _ => []

mutual

/-- The reals in an expression. -/
def Expr.reals : Expr → List Binary64
  | .binary _ left right => left.reals ++ right.reals
  | .unary _ operand => operand.reals
  | .column _ => []
  | .literal value => value.reals
  | .call _ args => Expr.realsOfList args
  | .inList element values => element.reals ++ values.flatMap Literal.reals
  | .join _ _ carrier => carrier.reals
  | .existsRow query => query.reals

/-- The reals in several expressions. -/
def Expr.realsOfList : List Expr → List Binary64
  | [] => []
  | first :: rest => first.reals ++ Expr.realsOfList rest

/-- The reals in an item of a SELECT list. -/
def Projection.reals : Projection → List Binary64
  | .expr expression => expression.reals
  | .aliased expression _ => expression.reals
  | .wildcard _ => []

/-- The reals in several items. -/
def Projection.realsOfList : List Projection → List Binary64
  | [] => []
  | first :: rest => first.reals ++ Projection.realsOfList rest

/-- The reals in a sort key. -/
def SortKey.reals : SortKey → List Binary64
  | ⟨expression, _⟩ => expression.reals

/-- The reals in several sort keys. -/
def SortKey.realsOfList : List SortKey → List Binary64
  | [] => []
  | first :: rest => first.reals ++ SortKey.realsOfList rest

/-- The reals in a sort rule. -/
def SortRule.reals : SortRule → List Binary64
  | ⟨orderings⟩ => SortKey.realsOfList orderings

/-- The reals in several sort rules. -/
def SortRule.realsOfList : List SortRule → List Binary64
  | [] => []
  | first :: rest => first.reals ++ SortRule.realsOfList rest

/-- The reals in a statement. -/
def Query.reals : Query → List Binary64
  | ⟨results, predicates, order⟩ =>
    Projection.realsOfList results ++ Expr.realsOfList predicates ++ SortRule.realsOfList order

end

theorem Expr.reals_call (function : FunctionName) (args : List Expr) :
    (Expr.call function args).reals = args.flatMap Expr.reals := by
  rw [Expr.reals, each_eq_flatMap Expr.realsOfList rfl fun _ _ => rfl]

theorem SortRule.reals_eq (rule : SortRule) : rule.reals = rule.orderings.flatMap SortKey.reals := by
  cases rule
  rw [SortRule.reals, each_eq_flatMap SortKey.realsOfList rfl fun _ _ => rfl]

/-- The reals in a statement are those in its parts. -/
theorem Query.reals_eq (query : Query) :
    query.reals =
      query.results.flatMap Projection.reals ++ query.predicates.flatMap Expr.reals ++
        query.order.flatMap SortRule.reals := by
  cases query
  rw [Query.reals, each_eq_flatMap Projection.realsOfList rfl fun _ _ => rfl,
    each_eq_flatMap Expr.realsOfList rfl fun _ _ => rfl,
    each_eq_flatMap SortRule.realsOfList rfl fun _ _ => rfl]

/-! ## Trees that are canonical already -/

/-- A real is canonical if it is no NaN but the one that reading produces. -/
theorem Binary64.canonical_eq_iff {x : Binary64} :
    x.canonical = x ↔ (x.isNaN = true → x = .quietNaN) := by
  unfold Binary64.canonical
  split
  · next hnan => exact ⟨fun h _ => h.symm, fun h => (h hnan).symm⟩
  · next hnan => exact ⟨fun _ h => absurd h hnan, fun _ => rfl⟩

/-- A list is kept by a function that keeps its members. -/
theorem map_eq_self_iff {α : Type} {f : α → α} {list : List α} :
    list.map f = list ↔ ∀ a ∈ list, f a = a := by
  have hsame := List.map_inj_left (l := list) (f := f) (g := id)
  rwa [List.map_id] at hsame

/-- What a function does not see in the members of a list it does not see in the list. -/
theorem map_map_canonical {α β : Type} {canonical : α → α} {f : α → β} {list : List α}
    (h : ∀ a ∈ list, f (canonical a) = f a) : (list.map canonical).map f = list.map f := by
  rw [List.map_map]
  exact List.map_congr_left h

theorem Literal.canonical_eq_iff {value : Literal} :
    value.canonical = value ↔ ∀ x ∈ value.reals, x.canonical = x := by
  cases value <;> simp [Literal.canonical, Literal.reals]

/-- A list of trees is canonical if the reals of all of them are. -/
theorem map_canonical_eq_iff {α : Type} {canonical : α → α} {reals : α → List Binary64}
    {list : List α}
    (h : ∀ a ∈ list, canonical a = a ↔ ∀ x ∈ reals a, x.canonical = x) :
    list.map canonical = list ↔ ∀ x ∈ list.flatMap reals, x.canonical = x := by
  rw [map_eq_self_iff, List.forall_mem_flatMap]
  exact forall₂_congr h

/-- An item of a SELECT list is canonical if its expression is. -/
theorem Projection.canonical_eq_iff {result : Projection}
    (h : ∀ e ∈ result.expression?, e.canonical = e ↔ ∀ x ∈ e.reals, x.canonical = x) :
    result.canonical = result ↔ ∀ x ∈ result.reals, x.canonical = x := by
  cases result with
  | expr expression =>
    simpa [Projection.canonical, Projection.reals] using h expression rfl
  | aliased expression label =>
    simpa [Projection.canonical, Projection.reals] using h expression rfl
  | wildcard table => simp [Projection.canonical, Projection.reals]

/-- A sort key is canonical if its expression is. -/
theorem SortKey.canonical_eq_iff {key : SortKey}
    (h : key.expression.canonical = key.expression ↔
      ∀ x ∈ key.expression.reals, x.canonical = x) :
    key.canonical = key ↔ ∀ x ∈ key.reals, x.canonical = x := by
  obtain ⟨expression, direction⟩ := key
  simpa [SortKey.canonical, SortKey.reals] using h

/-- A sort rule is canonical if the expressions of its keys are. -/
theorem SortRule.canonical_eq_iff {rule : SortRule}
    (h : ∀ key ∈ rule.orderings, key.expression.canonical = key.expression ↔
      ∀ x ∈ key.expression.reals, x.canonical = x) :
    rule.canonical = rule ↔ ∀ x ∈ rule.reals, x.canonical = x := by
  obtain ⟨orderings⟩ := rule
  rw [SortRule.canonical_eq, SortRule.reals_eq, SortRule.mk.injEq]
  exact map_canonical_eq_iff fun key hkey => SortKey.canonical_eq_iff (h key hkey)

/-- The steps by which trees are canonical if their reals are. -/
theorem canonical_steps :
    TreeInduction (fun e => e.canonical = e ↔ ∀ x ∈ e.reals, x.canonical = x)
      (fun query => query.canonical = query ↔ ∀ x ∈ query.reals, x.canonical = x) where
  binary {op left right} hleft hright := by
    simp only [Expr.canonical, Expr.reals, Expr.binary.injEq, true_and, List.forall_mem_append,
      hleft, hright]
  unary {op operand} hoperand := by
    simp only [Expr.canonical, Expr.reals, Expr.unary.injEq, true_and, hoperand]
  column c := by simp [Expr.canonical, Expr.reals]
  literal value := by
    simp only [Expr.canonical, Expr.reals, Expr.literal.injEq, Literal.canonical_eq_iff]
  call {function args} hargs := by
    rw [Expr.canonical_call, Expr.reals_call]
    simp only [Expr.call.injEq, true_and, map_canonical_eq_iff hargs]
  inList {element values} helement := by
    have hvalues : values.map Literal.canonical = values ↔
        ∀ x ∈ values.flatMap Literal.reals, x.canonical = x :=
      map_canonical_eq_iff fun value _ => value.canonical_eq_iff
    simp only [Expr.canonical, Expr.reals, Expr.inList.injEq, List.forall_mem_append, helement,
      hvalues]
  join {left right carrier} hcarrier := by
    simp only [Expr.canonical, Expr.reals, Expr.join.injEq, true_and, hcarrier]
  existsRow {query} hquery := by
    simp only [Expr.canonical, Expr.reals, Expr.existsRow.injEq, hquery]
  query {query} h := by
    have hresults : query.results.map Projection.canonical = query.results ↔
        ∀ x ∈ query.results.flatMap Projection.reals, x.canonical = x :=
      map_canonical_eq_iff fun result hresult => Projection.canonical_eq_iff fun e he =>
        h e (mem_expressions_of_mem_results hresult he)
    have hpredicates : query.predicates.map Expr.canonical = query.predicates ↔
        ∀ x ∈ query.predicates.flatMap Expr.reals, x.canonical = x :=
      map_canonical_eq_iff fun e he => h e (mem_expressions_of_mem_predicates he)
    have horder : query.order.map SortRule.canonical = query.order ↔
        ∀ x ∈ query.order.flatMap SortRule.reals, x.canonical = x :=
      map_canonical_eq_iff fun rule hrule => SortRule.canonical_eq_iff fun key hkey =>
        h key.expression (mem_expressions_of_mem_orderings hrule hkey)
    obtain ⟨results, predicates, order⟩ := query
    rw [Query.canonical_eq, Query.reals_eq]
    simp only [Query.mk.injEq, List.forall_mem_append, hresults, hpredicates, horder, and_assoc]

end SqlSelect
