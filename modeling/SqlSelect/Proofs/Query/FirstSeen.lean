import Mathlib.Data.List.Induction
import SqlSelect.Proofs.Query.Joins

/-!
# The order of folded joins

The joins of a tree form one sequence, with all repeats: those of an expression in pre-order, and those of
a statement from its items over its conditions to its sort rules. Repeats are dropped in two stages,
first within each expression and then between the expressions, where what is a condition already is
dropped too. In the end this is one pass over the sequence: the first of each condition stays, unless
the statement has it.
-/

namespace SqlSelect

mutual

/-- The conditions of the joins in an expression, in pre-order and with all repeats; subqueries are not
entered. -/
def Expr.joinSequence : Expr → List Expr
  | .binary _ left right => left.joinSequence ++ right.joinSequence
  | .unary _ operand => operand.joinSequence
  | .column _ => []
  | .literal _ => []
  | .call _ args => Expr.joinSequenceOfList args
  | .inList element _ => element.joinSequence
  | .join left right carrier =>
    .binary .equal (.column left) (.column right) :: carrier.joinSequence
  | .existsRow _ => []

/-- The conditions of the joins in several expressions, one expression after the other. -/
def Expr.joinSequenceOfList : List Expr → List Expr
  | [] => []
  | first :: rest => first.joinSequence ++ Expr.joinSequenceOfList rest

end

/-- The conditions of the joins in an item of a SELECT list. -/
def Projection.joinSequence : Projection → List Expr
  | .expr expression => expression.joinSequence
  | .aliased expression _ => expression.joinSequence
  | .wildcard _ => []

/-- The conditions of the joins in a statement with all repeats: those of what is selected, then those
of the conditions, then those of what is sorted by. -/
def Query.joinSequence (query : Query) : List Expr :=
  query.results.flatMap Projection.joinSequence ++ query.predicates.flatMap Expr.joinSequence ++
    query.order.flatMap fun rule => rule.orderings.flatMap fun key => key.expression.joinSequence

/-! ## Dropping repeats -/

section Repeats

variable {α β : Type} [DecidableEq α]

/-- A last item stays if it has not been seen. -/
theorem eraseDups_concat (list : List α) (a : α) :
    (list ++ [a]).eraseDups = if a ∈ list then list.eraseDups else list.eraseDups ++ [a] := by
  rw [List.eraseDups_append]
  by_cases h : a ∈ list <;> simp [List.removeAll, List.eraseDups_cons, h]

/-- Repeats at the end may be dropped before. -/
theorem eraseDups_append_eraseDups (left right : List α) :
    (left ++ right.eraseDups).eraseDups = (left ++ right).eraseDups := by
  induction right using List.reverseRecOn with
  | nil => rfl
  | append_singleton right a ih =>
    rw [eraseDups_concat]
    split
    · next h => rw [ih, ← List.append_assoc, eraseDups_concat, if_pos (List.mem_append_right _ h)]
    · next h =>
      rw [← List.append_assoc, ← List.append_assoc, eraseDups_concat, eraseDups_concat, ih]
      simp only [List.mem_append, List.mem_eraseDups]

/-- Repeats at the beginning may be dropped before. -/
theorem eraseDups_eraseDups_append (left right : List α) :
    (left.eraseDups ++ right).eraseDups = (left ++ right).eraseDups := by
  induction right using List.reverseRecOn with
  | nil => simpa using eraseDups_append_eraseDups [] left
  | append_singleton right a ih =>
    rw [← List.append_assoc, ← List.append_assoc, eraseDups_concat, eraseDups_concat, ih]
    simp only [List.mem_append, List.mem_eraseDups]

/-- Repeats may be dropped within each block before they are dropped between the blocks. -/
theorem eraseDups_flatMap_eraseDups (blocks : List β) (entries : β → List α) :
    (blocks.flatMap fun block => (entries block).eraseDups).eraseDups =
      (blocks.flatMap entries).eraseDups := by
  induction blocks using List.reverseRecOn with
  | nil => rfl
  | append_singleton blocks block ih =>
    simp only [List.flatMap_append, List.flatMap_singleton]
    rw [eraseDups_append_eraseDups, ← eraseDups_eraseDups_append, ih, eraseDups_eraseDups_append]

end Repeats

/-! ## Expressions -/

mutual

/-- The conditions of the nodes in pre-order are the sequence. -/
theorem Expr.filterMap_nodes : (e : Expr) → e.nodes.filterMap Expr.joinCondition? = e.joinSequence
  | .binary op left right => by
    rw [Expr.nodes, Expr.joinSequence, List.filterMap_cons_none rfl, List.filterMap_append,
      Expr.filterMap_nodes left, Expr.filterMap_nodes right]
  | .unary op operand => by
    rw [Expr.nodes, Expr.joinSequence, List.filterMap_cons_none rfl, Expr.filterMap_nodes operand]
  | .column c => rfl
  | .literal value => rfl
  | .call function args => by
    rw [Expr.nodes, Expr.joinSequence, List.filterMap_cons_none rfl,
      Expr.filterMap_nodesOfList args]
  | .inList element values => by
    rw [Expr.nodes, Expr.joinSequence, List.filterMap_cons_none rfl, Expr.filterMap_nodes element]
  | .join left right carrier => by
    have hcondition : (Expr.join left right carrier).joinCondition? =
        some (.binary .equal (.column left) (.column right)) := rfl
    rw [Expr.nodes, Expr.joinSequence, List.filterMap_cons_some hcondition,
      Expr.filterMap_nodes carrier]
  | .existsRow query => rfl

theorem Expr.filterMap_nodesOfList : (expressions : List Expr) →
    (Expr.nodesOfList expressions).filterMap Expr.joinCondition? =
      Expr.joinSequenceOfList expressions
  | [] => rfl
  | first :: rest => by
    rw [Expr.nodesOfList, Expr.joinSequenceOfList, List.filterMap_append,
      Expr.filterMap_nodes first, Expr.filterMap_nodesOfList rest]

end

/-- Appending what is new, item after item, keeps the first of each. -/
theorem Expr.foldl_appendNew (conditions : List Expr) :
    conditions.foldl Expr.appendNew [] = conditions.eraseDups := by
  induction conditions using List.reverseRecOn with
  | nil => rfl
  | append_singleton conditions condition ih =>
    rw [List.foldl_append, List.foldl_cons, List.foldl_nil, ih, Expr.appendNew, eraseDups_concat]
    simp only [List.mem_eraseDups]

/-- The joins of an expression are its sequence without the repeats. -/
theorem Expr.joins_eq (e : Expr) : e.joins = e.joinSequence.eraseDups := by
  rw [Expr.joins, ← Expr.filterMap_nodes, ← Expr.foldl_appendNew, List.foldl_filterMap]
  congr 1
  funext joins node
  cases node.joinCondition? <;> rfl

/-! ## Statements -/

namespace Query

/-- The sequence of a statement is that of its expressions. -/
theorem flatMap_joinSequence (query : Query) :
    query.expressions.flatMap Expr.joinSequence = query.joinSequence := by
  have hresults : (query.results.filterMap Projection.expression?).flatMap Expr.joinSequence =
      query.results.flatMap Projection.joinSequence := by
    induction query.results with
    | nil => rfl
    | cons first rest ih =>
      cases first <;>
        simp [List.filterMap_cons, Projection.expression?, Projection.joinSequence, ih]
  rw [expressions, joinSequence, List.flatMap_append, List.flatMap_append, hresults,
    List.flatMap_assoc]
  simp only [SortRule.expressions, List.flatMap_map]

/-- What is appended to nothing is the first of each condition that the statement does not have. -/
theorem appendMissing_nil (query : Query) (conditions : List Expr) :
    query.appendMissing [] conditions =
      conditions.eraseDups.filter (· ∉ query.predicates) := by
  induction conditions using List.reverseRecOn with
  | nil => rfl
  | append_singleton conditions condition ih =>
    have hlast : query.appendMissing [] (conditions ++ [condition]) =
        if condition ∈ query.appendMissing [] conditions ∨ condition ∈ query.predicates then
          query.appendMissing [] conditions
        else query.appendMissing [] conditions ++ [condition] := by
      rw [appendMissing, List.foldl_append]
      rfl
    rw [hlast, ih, eraseDups_concat]
    by_cases hknown : condition ∈ query.predicates
    · by_cases hseen : condition ∈ conditions <;> simp [hknown, hseen]
    · by_cases hseen : condition ∈ conditions <;> simp [hknown, hseen]

/-- The missing joins are the first of each condition in the sequence that the statement does not have. -/
theorem missingJoins_eq (query : Query) :
    query.missingJoins = query.joinSequence.eraseDups.filter (· ∉ query.predicates) := by
  have hjoins : Expr.joins = fun e => e.joinSequence.eraseDups := funext Expr.joins_eq
  rw [missingJoins_eq_appendMissing, appendMissing_nil, hjoins, eraseDups_flatMap_eraseDups,
    flatMap_joinSequence]

end Query

/-- Folding leaves what is selected and the order as they are, and adds to the conditions the first of each
condition in the sequence of the statement's joins that is not one of them. The joins of an expression
are the first of each condition in its sequence. -/
theorem joins_in_first_seen_order :
    (∀ query : Query,
      query.foldJoins.results = query.results ∧ query.foldJoins.order = query.order ∧
        query.foldJoins.predicates = query.predicates ++
          query.joinSequence.eraseDups.filter (· ∉ query.predicates)) ∧
      ∀ e : Expr, e.joins = e.joinSequence.eraseDups := by
  refine ⟨fun query => ⟨query.results_foldJoins, query.order_foldJoins, ?_⟩, Expr.joins_eq⟩
  rw [Query.predicates_foldJoins, Query.missingJoins_eq]

/-- A join that is met twice and its turn: the turn stays a condition of its own. -/
example :
    let a : Column := ⟨⟨"t"⟩, "a"⟩
    let b : Column := ⟨⟨"u"⟩, "b"⟩
    (Expr.call .max [.join a b (.join b a (.column a)), .join a b (.column b)]).joins =
      [.binary .equal (.column a) (.column b), .binary .equal (.column b) (.column a)] := by
  decide +kernel

end SqlSelect
