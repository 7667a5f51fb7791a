import SqlSelect.Proofs.Tree.Occurrence
import SqlSelect.Query.Joins

/-!
# Comparisons with NULL

A comparison with NULL by `=` or `!=` is never true, so the builders write it with IS and IS NOT. Here
is the closure of all builders but the one that makes a node as it is told to: the expressions and
statements that are built by them in any number of calls. In what they make no operand of `=` or `!=`
stands for NULL at any depth, and the right operand of every IS and IS NOT does. The left operand does
so too only if both sides of the comparison did that the node was made by.
-/

namespace SqlSelect

/-! ## What is built -/

mutual

/-- An expression that the builders make out of built parts. -/
inductive Expr.Built : Expr → Prop
  | column (c : Column) : Expr.Built (.column c)
  | literal (value : Literal) : Expr.Built (.literal value)
  | call (function : FunctionName) {args : List Expr} (hargs : ∀ arg ∈ args, Expr.Built arg) :
      Expr.Built (.call function args)
  | maximum {args : List Expr} (hargs : ∀ arg ∈ args, Expr.Built arg) : Expr.Built (.maximum args)
  | minimum {args : List Expr} (hargs : ∀ arg ∈ args, Expr.Built arg) : Expr.Built (.minimum args)
  | count {arg : Expr} (harg : arg.Built) : Expr.Built arg.count
  | inList {element : Expr} (helement : element.Built) (values : List Literal) :
      Expr.Built (.inList element values)
  | join (left right : Column) {carrier : Expr} (hcarrier : carrier.Built) :
      Expr.Built (.join left right carrier)
  | existsRow {query : Query} (hquery : query.Built) : Expr.Built (.existsRow query)
  | equals {left right : Expr} (hleft : left.Built) (hright : right.Built) :
      Expr.Built (left.equals right)
  | notEquals {left right : Expr} (hleft : left.Built) (hright : right.Built) :
      Expr.Built (left.notEquals right)
  | equalsNull {e : Expr} (he : e.Built) : Expr.Built e.equalsNull
  | notEqualsNull {e : Expr} (he : e.Built) : Expr.Built e.notEqualsNull
  | both {left right : Expr} (hleft : left.Built) (hright : right.Built) :
      Expr.Built (left.both right)
  | either {left right : Expr} (hleft : left.Built) (hright : right.Built) :
      Expr.Built (left.either right)
  | negated {condition : Expr} (hcondition : condition.Built) : Expr.Built condition.negated
  | lessThan {left right : Expr} (hleft : left.Built) (hright : right.Built) :
      Expr.Built (left.lessThan right)
  | lessThanOrEqual {left right : Expr} (hleft : left.Built) (hright : right.Built) :
      Expr.Built (left.lessThanOrEqual right)
  | greaterThan {left right : Expr} (hleft : left.Built) (hright : right.Built) :
      Expr.Built (left.greaterThan right)
  | greaterThanOrEqual {left right : Expr} (hleft : left.Built) (hright : right.Built) :
      Expr.Built (left.greaterThanOrEqual right)
  | all {conditions : List Expr} {e : Expr} (hconditions : ∀ c ∈ conditions, Expr.Built c)
      (he : Expr.all? conditions = some e) : Expr.Built e
  | any {conditions : List Expr} {e : Expr} (hconditions : ∀ c ∈ conditions, Expr.Built c)
      (he : Expr.any? conditions = some e) : Expr.Built e

/-- An item of a SELECT list with a built expression. -/
inductive Projection.Built : Projection → Prop
  | expr {expression : Expr} (hexpression : expression.Built) : Projection.Built (.expr expression)
  | aliased {expression : Expr} (hexpression : expression.Built) (label : String) :
      Projection.Built (.aliased expression label)
  | wildcard (table : Table) : Projection.Built (.wildcard table)

/-- A sort rule with built expressions. -/
inductive SortRule.Built : SortRule → Prop
  | keys {orderings : List SortKey} (horderings : ∀ key ∈ orderings, key.expression.Built) :
      SortRule.Built ⟨orderings⟩

/-- A statement that the builders make out of built parts. -/
inductive Query.Built : Query → Prop
  | select {results : List Projection} (hresults : ∀ result ∈ results, result.Built) :
      Query.Built (.select results)
  | filter {query : Query} (hquery : query.Built) {predicate : Expr} (hpredicate : predicate.Built) :
      Query.Built (query.filter predicate)
  | sorted {query : Query} (hquery : query.Built) {rule : SortRule} (hrule : rule.Built) :
      Query.Built (query.sorted rule)
  | sortedBy {query : Query} (hquery : query.Built) {rules : List SortRule}
      (hrules : ∀ rule ∈ rules, rule.Built) : Query.Built (query.sortedBy rules)
  | foldJoins {query : Query} (hquery : query.Built) : Query.Built query.foldJoins

end

/-! ## Nodes at every depth -/

namespace Expr

/-- The expressions directly below a node, those of a subquery included. -/
def parts : Expr → List Expr
  | binary _ left right => [left, right]
  | unary _ operand => [operand]
  | column _ => []
  | literal _ => []
  | call _ args => args
  | inList element _ => [element]
  | join _ _ carrier => [carrier]
  | existsRow query => query.expressions

/-- A node occurs in an expression, at any depth and inside subqueries too. -/
inductive OccursIn (node : Expr) : Expr → Prop
  | self : OccursIn node node
  | inPart {e part : Expr} (hpart : part ∈ e.parts) (hnode : OccursIn node part) : OccursIn node e

/-- A property holds at every node of an expression, at any depth. -/
def Throughout (p : Expr → Prop) (e : Expr) : Prop := ∀ node : Expr, node.OccursIn e → p node

/-- What holds at a node and throughout its parts holds throughout the expression. -/
theorem Throughout.of_parts {p : Expr → Prop} {e : Expr} (hself : p e)
    (hparts : ∀ part ∈ e.parts, part.Throughout p) : e.Throughout p := by
  intro node hnode
  cases hnode with
  | self => exact hself
  | inPart hpart hnode => exact hparts _ hpart node hnode

end Expr

/-- A property holds at every node of a statement, at any depth. -/
def Query.Throughout (p : Expr → Prop) (query : Query) : Prop :=
  ∀ e ∈ query.expressions, e.Throughout p

/-! ## The rule for comparisons -/

namespace Expr

/-- A literal that is written as NULL: NULL itself or a NaN. -/
def StandsForNull (e : Expr) : Prop :=
  e = literal .null ∨ ∃ x : Binary64, x.isNaN = true ∧ e = literal (.real x)

theorem isNullLiteral_iff {e : Expr} : e.isNullLiteral = true ↔ e.StandsForNull := by
  unfold StandsForNull
  cases e with
  | literal value => cases value <;> simp [isNullLiteral]
  | _ => simp [isNullLiteral]

/-- A node that tests for NULL: its right operand stands for NULL, the node was made by a comparison of
built sides, and if its left operand stands for NULL too, then so did both sides of any comparison
that makes the node. -/
structure TestsNull (comparison : Expr → Expr → Expr) (node left right : Expr) : Prop where
  right : right.StandsForNull
  made : ∃ first second : Expr, first.Built ∧ second.Built ∧ comparison first second = node
  left : left.StandsForNull → ∀ first second : Expr, comparison first second = node →
    first.StandsForNull ∧ second.StandsForNull

/-- No operand of `=` or `!=` stands for NULL, and IS and IS NOT test for NULL. -/
def NullAware : Expr → Prop
  | binary .equal left right => ¬ left.StandsForNull ∧ ¬ right.StandsForNull
  | binary .notEqual left right => ¬ left.StandsForNull ∧ ¬ right.StandsForNull
  | binary .is left right => TestsNull equals (binary .is left right) left right
  | binary .isNot left right => TestsNull notEquals (binary .isNot left right) left right
  | _ => True

/-- The three outcomes of a comparison. -/
theorem nullAware_cases (op nullOp : BinaryOp) (left right : Expr) :
    (right.StandsForNull ∧ nullAware op nullOp left right = binary nullOp left right) ∨
    (left.StandsForNull ∧ ¬ right.StandsForNull ∧
      nullAware op nullOp left right = binary nullOp right left) ∨
    (¬ left.StandsForNull ∧ ¬ right.StandsForNull ∧
      nullAware op nullOp left right = binary op left right) := by
  simp only [← isNullLiteral_iff]
  unfold nullAware
  by_cases hright : right.isNullLiteral = true
  · exact .inl ⟨hright, if_pos hright⟩
  · by_cases hleft : left.isNullLiteral = true
    · exact .inr (.inl ⟨hleft, hright, by rw [if_neg hright, if_pos hleft]⟩)
    · exact .inr (.inr ⟨hleft, hright, by rw [if_neg hright, if_neg hleft]⟩)

/-- If the left operand of a test for NULL stands for NULL, then so did both sides of the comparison. -/
theorem standsForNull_of_nullAware {op nullOp : BinaryOp} (hop : op ≠ nullOp)
    {first second left right : Expr} (h : nullAware op nullOp first second = binary nullOp left right)
    (hleft : left.StandsForNull) : first.StandsForNull ∧ second.StandsForNull := by
  obtain ⟨hsecond, heq⟩ | ⟨-, hsecond, heq⟩ | ⟨-, -, heq⟩ := nullAware_cases op nullOp first second
  · obtain ⟨-, rfl, rfl⟩ := binary.inj (heq.symm.trans h)
    exact ⟨hleft, hsecond⟩
  · obtain ⟨-, rfl, rfl⟩ := binary.inj (heq.symm.trans h)
    exact absurd hleft hsecond
  · exact absurd (binary.inj (heq.symm.trans h)).1 hop

/-- What holds throughout both sides of a comparison, and at the node that is made of them, holds
throughout the comparison. -/
theorem Throughout.nullAware {p : Expr → Prop} {op nullOp : BinaryOp} {left right : Expr}
    (hleft : left.Throughout p) (hright : right.Throughout p)
    (hself : p (nullAware op nullOp left right)) :
    (nullAware op nullOp left right).Throughout p := by
  refine .of_parts hself fun part hpart => ?_
  obtain ⟨-, heq⟩ | ⟨-, -, heq⟩ | ⟨-, -, heq⟩ := nullAware_cases op nullOp left right
  all_goals
    rw [heq] at hpart
    simp only [parts, List.mem_cons, List.not_mem_nil, or_false] at hpart
    obtain rfl | rfl := hpart
  · exact hleft
  · exact hright
  · exact hright
  · exact hleft
  · exact hleft
  · exact hright

/-! ## Every builder keeps the rule -/

/-- A comparison of built sides keeps the rule if the plain operator does between operands that do not
stand for NULL, and the other operator does where it tests for NULL. -/
theorem throughout_comparison (op nullOp : BinaryOp) (hop : op ≠ nullOp)
    (hplain : ∀ left right : Expr, ¬ left.StandsForNull → ¬ right.StandsForNull →
      (binary op left right).NullAware)
    (htests : ∀ left right : Expr,
      TestsNull (nullAware op nullOp) (binary nullOp left right) left right →
        (binary nullOp left right).NullAware)
    {first second : Expr} (hfirst : first.Built) (hsecond : second.Built)
    (first_throughout : first.Throughout NullAware)
    (second_throughout : second.Throughout NullAware) :
    (nullAware op nullOp first second).Throughout NullAware := by
  refine first_throughout.nullAware second_throughout ?_
  have hnode : ∀ left right : Expr, right.StandsForNull →
      nullAware op nullOp first second = binary nullOp left right →
      (nullAware op nullOp first second).NullAware := by
    intro left right hright hmade
    rw [hmade]
    exact htests left right ⟨hright, ⟨first, second, hfirst, hsecond, hmade⟩,
      fun hleft _ _ hsame => standsForNull_of_nullAware hop hsame hleft⟩
  obtain ⟨hnull, heq⟩ | ⟨hnull, -, heq⟩ | ⟨hleft, hright, heq⟩ :=
    nullAware_cases op nullOp first second
  · exact hnode first second hnull heq
  · exact hnode second first hnull heq
  · rw [heq]
    exact hplain first second hleft hright

theorem throughout_equals {left right : Expr} (hleft : left.Built) (hright : right.Built)
    (left_throughout : left.Throughout NullAware) (right_throughout : right.Throughout NullAware) :
    (left.equals right).Throughout NullAware :=
  throughout_comparison .equal .is (by decide) (fun _ _ h h' => ⟨h, h'⟩) (fun _ _ h => h) hleft hright
    left_throughout right_throughout

theorem throughout_notEquals {left right : Expr} (hleft : left.Built) (hright : right.Built)
    (left_throughout : left.Throughout NullAware) (right_throughout : right.Throughout NullAware) :
    (left.notEquals right).Throughout NullAware :=
  throughout_comparison .notEqual .isNot (by decide) (fun _ _ h h' => ⟨h, h'⟩) (fun _ _ h => h)
    hleft hright left_throughout right_throughout

theorem throughout_literal (value : Literal) : (literal value).Throughout NullAware :=
  .of_parts trivial fun _ hpart => absurd hpart List.not_mem_nil

theorem throughout_call (function : FunctionName) {args : List Expr}
    (hargs : ∀ arg ∈ args, arg.Throughout NullAware) : (call function args).Throughout NullAware :=
  .of_parts trivial hargs

/-- An operator that compares nothing for equality may have any operands. -/
theorem throughout_binary {op : BinaryOp} (hop : op ∉ [.equal, .notEqual, .is, .isNot])
    {left right : Expr} (hleft : left.Throughout NullAware) (hright : right.Throughout NullAware) :
    (binary op left right).Throughout NullAware := by
  refine .of_parts ?_ fun part hpart => ?_
  · cases op <;> simp at hop <;> trivial
  · simp only [parts, List.mem_cons, List.not_mem_nil, or_false] at hpart
    obtain rfl | rfl := hpart
    · exact hleft
    · exact hright

theorem throughout_chain {op : BinaryOp} (hop : op ∉ [.equal, .notEqual, .is, .isNot])
    {conditions : List Expr} {e : Expr} (h : ∀ c ∈ conditions, c.Throughout NullAware)
    (he : chain? op conditions = some e) : e.Throughout NullAware := by
  cases conditions with
  | nil => cases he
  | cons first rest =>
    obtain rfl := Option.some.inj he
    obtain ⟨hfirst, hrest⟩ := List.forall_mem_cons.1 h
    clear h he
    induction rest generalizing first with
    | nil => exact hfirst
    | cons second others ih =>
      obtain ⟨hsecond, hothers⟩ := List.forall_mem_cons.1 hrest
      exact ih (binary op first second) (throughout_binary hop hfirst hsecond) hothers

/-- The condition of a join compares two columns. -/
theorem throughout_joinCondition (left right : Column) :
    (joinCondition left right).Throughout NullAware := by
  have hcolumn : ∀ c : Column, ¬ (column c).StandsForNull := by simp [StandsForNull]
  refine .of_parts ⟨hcolumn left, hcolumn right⟩ fun part hpart => ?_
  simp only [joinCondition, parts, List.mem_cons, List.not_mem_nil, or_false] at hpart
  obtain rfl | rfl := hpart
  all_goals exact .of_parts trivial fun _ hnone => absurd hnone List.not_mem_nil

end Expr

namespace Query

/-- A property holds throughout a statement if it does so throughout what is selected, tested and
sorted by. -/
theorem throughout_iff {p : Expr → Prop} {query : Query} :
    query.Throughout p ↔
      (∀ result ∈ query.results, ∀ e ∈ result.expression?, e.Throughout p) ∧
        (∀ e ∈ query.predicates, e.Throughout p) ∧
          ∀ rule ∈ query.order, ∀ e ∈ rule.expressions, e.Throughout p := by
  unfold Throughout
  simp only [mem_expressions_iff]
  constructor
  · intro h
    exact ⟨fun result hresult e he => h e (.inl ⟨result, hresult, he⟩),
      fun e he => h e (.inr (.inl he)),
      fun rule hrule e he => h e (.inr (.inr ⟨rule, hrule, he⟩))⟩
  · rintro ⟨hresults, hpredicates, horder⟩ e (⟨result, hresult, he⟩ | he | ⟨rule, hrule, he⟩)
    · exact hresults result hresult e he
    · exact hpredicates e he
    · exact horder rule hrule e he

theorem Throughout.filter {p : Expr → Prop} {query : Query} (h : query.Throughout p)
    {predicate : Expr} (hpredicate : predicate.Throughout p) :
    (query.filter predicate).Throughout p := by
  obtain ⟨hresults, hpredicates, horder⟩ := throughout_iff.1 h
  refine throughout_iff.2 ⟨hresults, fun e he => ?_, horder⟩
  rcases List.mem_append.1 he with he | he
  · exact hpredicates e he
  · exact List.mem_singleton.1 he ▸ hpredicate

theorem Throughout.sortedBy {p : Expr → Prop} {query : Query} (h : query.Throughout p)
    {rules : List SortRule} (hrules : ∀ rule ∈ rules, ∀ e ∈ rule.expressions, e.Throughout p) :
    (query.sortedBy rules).Throughout p := by
  obtain ⟨hresults, hpredicates, horder⟩ := throughout_iff.1 h
  refine throughout_iff.2 ⟨hresults, hpredicates, fun rule hrule => ?_⟩
  rcases List.mem_append.1 hrule with hrule | hrule
  · exact hrules rule hrule
  · exact horder rule hrule

/-- Folding adds conditions of joins only. -/
theorem Throughout.foldJoins {query : Query} (h : query.Throughout Expr.NullAware) :
    query.foldJoins.Throughout Expr.NullAware := by
  obtain ⟨hresults, hpredicates, horder⟩ := throughout_iff.1 h
  refine throughout_iff.2 ⟨hresults, fun e he => ?_, horder⟩
  rcases List.mem_append.1 he with he | he
  · exact hpredicates e he
  · obtain ⟨⟨carrying, -, hjoins⟩, -⟩ := mem_missingJoins.1 he
    obtain ⟨left, right, -, -, rfl⟩ := Expr.mem_joins_iff_standsIn.1 hjoins
    exact Expr.throughout_joinCondition left right

end Query

mutual

/-- What is built takes NULL for a value throughout. -/
theorem Expr.Built.throughout {e : Expr} : e.Built → e.Throughout Expr.NullAware
  | .column c => .of_parts trivial fun _ hpart => absurd hpart List.not_mem_nil
  | .literal value => Expr.throughout_literal value
  | .call function hargs => Expr.throughout_call function fun arg harg => (hargs arg harg).throughout
  | .maximum hargs => Expr.throughout_call .max fun arg harg => (hargs arg harg).throughout
  | .minimum hargs => Expr.throughout_call .min fun arg harg => (hargs arg harg).throughout
  | .count harg => Expr.throughout_call .count fun _ h => List.mem_singleton.1 h ▸ harg.throughout
  | .inList helement values => .of_parts trivial fun _ h =>
      List.mem_singleton.1 h ▸ helement.throughout
  | .join left right hcarrier => .of_parts trivial fun _ h =>
      List.mem_singleton.1 h ▸ hcarrier.throughout
  | .existsRow hquery => .of_parts trivial hquery.throughout
  | .equals hleft hright =>
      Expr.throughout_equals hleft hright hleft.throughout hright.throughout
  | .notEquals hleft hright =>
      Expr.throughout_notEquals hleft hright hleft.throughout hright.throughout
  | .equalsNull he =>
      Expr.throughout_equals he (.literal .null) he.throughout (Expr.throughout_literal .null)
  | .notEqualsNull he =>
      Expr.throughout_notEquals he (.literal .null) he.throughout (Expr.throughout_literal .null)
  | .both hleft hright => Expr.throughout_binary (by decide) hleft.throughout hright.throughout
  | .either hleft hright => Expr.throughout_binary (by decide) hleft.throughout hright.throughout
  | .negated hcondition => .of_parts trivial fun _ h =>
      List.mem_singleton.1 h ▸ hcondition.throughout
  | .lessThan hleft hright => Expr.throughout_binary (by decide) hleft.throughout hright.throughout
  | .lessThanOrEqual hleft hright =>
      Expr.throughout_binary (by decide) hleft.throughout hright.throughout
  | .greaterThan hleft hright =>
      Expr.throughout_binary (by decide) hleft.throughout hright.throughout
  | .greaterThanOrEqual hleft hright =>
      Expr.throughout_binary (by decide) hleft.throughout hright.throughout
  | .all hconditions he =>
      Expr.throughout_chain (by decide) (fun c hc => (hconditions c hc).throughout) he
  | .any hconditions he =>
      Expr.throughout_chain (by decide) (fun c hc => (hconditions c hc).throughout) he

theorem Projection.Built.throughout {result : Projection} :
    result.Built → ∀ e ∈ result.expression?, e.Throughout Expr.NullAware
  | .expr hexpression, _, h => Option.some.inj h ▸ hexpression.throughout
  | .aliased hexpression _, _, h => Option.some.inj h ▸ hexpression.throughout
  | .wildcard _, _, h => by cases h

theorem SortRule.Built.throughout {rule : SortRule} :
    rule.Built → ∀ e ∈ rule.expressions, e.Throughout Expr.NullAware
  | .keys horderings, e, h => by
    obtain ⟨key, hkey, rfl⟩ := List.mem_map.1 h
    exact (horderings key hkey).throughout

/-- What is built takes NULL for a value throughout. -/
theorem Query.Built.throughout {query : Query} : query.Built → query.Throughout Expr.NullAware
  | .select hresults => Query.throughout_iff.2
      ⟨fun result hresult => (hresults result hresult).throughout,
        List.forall_mem_nil _, List.forall_mem_nil _⟩
  | .filter hquery hpredicate => hquery.throughout.filter hpredicate.throughout
  | .sorted hquery hrule => hquery.throughout.sortedBy fun _ h =>
      List.mem_singleton.1 h ▸ hrule.throughout
  | .sortedBy hquery hrules => hquery.throughout.sortedBy fun rule hrule =>
      (hrules rule hrule).throughout
  | .foldJoins hquery => hquery.throughout.foldJoins

end

/-- In whatever the builders make, at every node of an expression or a statement at any depth, no operand
of `=` or `!=` stands for NULL; the right operand of every IS and IS NOT does, and the left one only if
both sides of the comparison did by which the node was made. -/
theorem null_compared_by_is_only :
    (∀ e : Expr, e.Built → ∀ node : Expr, node.OccursIn e → node.NullAware) ∧
      ∀ query : Query, query.Built →
        ∀ e ∈ query.expressions, ∀ node : Expr, node.OccursIn e → node.NullAware :=
  ⟨fun _ h => h.throughout, fun _ h => h.throughout⟩

/-- Two NaNs that are compared for inequality, in a condition of a subquery below a call and a join: the
node is a test with IS NOT, and both of its operands stand for NULL. -/
theorem nan_compared_in_subquery :
    let nan : Expr := .literal (.real ⟨0x7ff8000000000001⟩)
    let inner : Query := (Query.select [.wildcard ⟨"u"⟩]).filter (nan.notEquals nan)
    let e : Expr := .join ⟨⟨"t"⟩, "a"⟩ ⟨⟨"u"⟩, "b"⟩ (.maximum [.existsRow inner])
    let outer : Query := (Query.select [.expr e]).foldJoins
    let node : Expr := .binary .isNot nan nan
    (e.Built ∧ node.OccursIn e ∧ node.NullAware) ∧
      outer.Built ∧ e ∈ outer.expressions ∧ nan.StandsForNull ∧
        Expr.TestsNull Expr.notEquals node nan nan := by
  intro nan inner e outer node
  have hinner : inner.Built := by
    refine .filter (.select fun result hresult => ?_) (.notEquals (.literal _) (.literal _))
    exact List.mem_singleton.1 hresult ▸ .wildcard _
  have he : e.Built := by
    refine .join _ _ (.maximum fun arg harg => ?_)
    exact List.mem_singleton.1 harg ▸ .existsRow hinner
  have houter : outer.Built := by
    refine .foldJoins (.select fun result hresult => ?_)
    exact List.mem_singleton.1 hresult ▸ .expr he
  have hmember : e ∈ outer.expressions := List.mem_cons_self
  have hsubquery : node.OccursIn (.existsRow inner) := .inPart List.mem_cons_self .self
  have hcall : node.OccursIn (.maximum [.existsRow inner]) := .inPart List.mem_cons_self hsubquery
  have hoccurs : node.OccursIn e := .inPart List.mem_cons_self hcall
  exact ⟨⟨he, hoccurs, null_compared_by_is_only.1 e he node hoccurs⟩, houter, hmember,
    .inr ⟨_, rfl, rfl⟩, null_compared_by_is_only.2 outer houter e hmember node hoccurs⟩

end SqlSelect
