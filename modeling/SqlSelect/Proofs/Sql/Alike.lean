import SqlSelect.Proofs.Sql.Unique

/-!
# Statements with the same text

Rendering is unambiguous up to what SQL text cannot show: which joins an expression carries, whether
NULL was a NaN, whether a text was a date, and where the sort rules are divided. Two statements are
alike if they differ in nothing else, and exactly those have the same text. The tables of the FROM
clause are compared too, since a join adds its tables there.
-/

namespace SqlSelect

/-! ## What is alike -/

namespace Literal

/-- Whether the literal is written as NULL. -/
def isNullText : Literal → Bool
  | null => true
  | real x => x.isNaN
  | _ => false

/-- What a text says, or a date to the millisecond. -/
def content? : Literal → Option String
  | text content => some content
  | date moment => some (String.ofList moment.millisecondText)
  | _ => none

/-- Literals are alike if they are equal, if both are written as NULL, or if both are texts or dates
with the same content. -/
def Alike (left right : Literal) : Prop :=
  left = right ∨ (left.isNullText = true ∧ right.isNullText = true) ∨
    ∃ content, left.content? = some content ∧ right.content? = some content

end Literal

mutual

/-- Expressions are alike if they are the same node for node, once every join is replaced by its
carrier. -/
inductive Expr.Alike : Expr → Expr → Prop
  | binary {op : BinaryOp} {left right left' right' : Expr} (hleft : left.Alike left')
      (hright : right.Alike right') : Expr.Alike (.binary op left right) (.binary op left' right')
  | unary {op : UnaryOp} {operand operand' : Expr} (hoperand : operand.Alike operand') :
      Expr.Alike (.unary op operand) (.unary op operand')
  | column (c : Column) : Expr.Alike (.column c) (.column c)
  | literal {value value' : Literal} (hvalue : value.Alike value') :
      Expr.Alike (.literal value) (.literal value')
  | call {function : FunctionName} {args args' : List Expr} (hlength : args.length = args'.length)
      (hargs : ∀ pair ∈ args.zip args', Expr.Alike pair.1 pair.2) :
      Expr.Alike (.call function args) (.call function args')
  | inList {element element' : Expr} {values values' : List Literal}
      (helement : element.Alike element') (hlength : values.length = values'.length)
      (hvalues : ∀ pair ∈ values.zip values', Literal.Alike pair.1 pair.2) :
      Expr.Alike (.inList element values) (.inList element' values')
  | joinLeft {left right : Column} {carrier other : Expr} (hcarrier : carrier.Alike other) :
      Expr.Alike (.join left right carrier) other
  | joinRight {left right : Column} {carrier other : Expr} (hcarrier : other.Alike carrier) :
      Expr.Alike other (.join left right carrier)
  | existsRow {query query' : Query} (hquery : query.Alike query') :
      Expr.Alike (.existsRow query) (.existsRow query')

/-- Items of a SELECT list are alike if they are of the same kind, with the same alias or table, and
their expressions are alike. -/
inductive Projection.Alike : Projection → Projection → Prop
  | expr {expression expression' : Expr} (hexpression : expression.Alike expression') :
      Projection.Alike (.expr expression) (.expr expression')
  | aliased {expression expression' : Expr} (hexpression : expression.Alike expression')
      (label : String) : Projection.Alike (.aliased expression label) (.aliased expression' label)
  | wildcard (table : Table) : Projection.Alike (.wildcard table) (.wildcard table)

/-- Terms of an ORDER BY clause are alike if both are missing, or if both are keys of the same
direction whose expressions are alike. -/
inductive SortKey.Alike : Option SortKey → Option SortKey → Prop
  | missing : SortKey.Alike none none
  | key {expression expression' : Expr} (hexpression : expression.Alike expression')
      (direction : Direction) :
      SortKey.Alike (some ⟨expression, direction⟩) (some ⟨expression', direction⟩)

/-- Statements are alike if their items, conditions and terms are alike one by one, they mention the
same tables, and both or neither have sort rules. -/
inductive Query.Alike : Query → Query → Prop
  | intro {left right : Query} (hresults : left.results.length = right.results.length)
      (eachResult : ∀ pair ∈ left.results.zip right.results, Projection.Alike pair.1 pair.2)
      (htables : left.tables = right.tables)
      (hpredicates : left.predicates.length = right.predicates.length)
      (eachPredicate : ∀ pair ∈ left.predicates.zip right.predicates, Expr.Alike pair.1 pair.2)
      (horder : left.order = [] ↔ right.order = [])
      (hterms : left.terms.length = right.terms.length)
      (eachTerm : ∀ pair ∈ left.terms.zip right.terms, SortKey.Alike pair.1 pair.2) :
      Query.Alike left right

end

/-! ## Lists one by one -/

section Lists

variable {α β : Type} {f : α → β}

/-- Lists whose members agree one by one have the same image. -/
theorem map_eq_of_zip {left right : List α} (hlength : left.length = right.length)
    (h : ∀ pair ∈ left.zip right, f pair.1 = f pair.2) : left.map f = right.map f := by
  induction left generalizing right with
  | nil =>
    cases right with
    | nil => rfl
    | cons => cases hlength
  | cons first rest ih =>
    cases right with
    | nil => cases hlength
    | cons second others =>
      have hfirst : f first = f second := h (first, second) List.mem_cons_self
      have hrest := ih (Nat.succ.inj hlength) fun pair hpair => h pair (List.mem_cons_of_mem _ hpair)
      rw [List.map_cons, List.map_cons, hfirst, hrest]

/-- Lists with the same image agree one by one. -/
theorem zip_of_map_eq {left right : List α} (h : left.map f = right.map f) :
    left.length = right.length ∧
      ∀ pair ∈ left.zip right, pair.1 ∈ left ∧ f pair.1 = f pair.2 := by
  refine ⟨by simpa using congrArg List.length h, ?_⟩
  induction left generalizing right with
  | nil => exact fun pair hpair => absurd hpair (by simp)
  | cons first rest ih =>
    cases right with
    | nil => cases h
    | cons second others =>
      obtain ⟨hfirst, hrest⟩ := List.cons.inj h
      intro pair hpair
      cases hpair with
      | head => exact ⟨List.mem_cons_self, hfirst⟩
      | tail _ hpair =>
        obtain ⟨hmem, hpair⟩ := ih hrest pair hpair
        exact ⟨List.mem_cons_of_mem _ hmem, hpair⟩

end Lists

/-! ## Like texts -/

/-- Literals that are alike have the same text. -/
theorem Literal.Alike.render_eq {left right : Literal} (h : left.Alike right) :
    left.render = right.render := by
  have hnull : ∀ value : Literal, value.isNullText = true → value.render = "NULL".toList := by
    intro value hvalue
    cases value with
    | null => rfl
    | real x => exact if_pos hvalue
    | _ => cases hvalue
  have hcontent : ∀ (value : Literal) (content : String), value.content? = some content →
      value.render = Quoted.wrap '\'' content.toList := by
    intro value content hvalue
    cases value with
    | text content' =>
      obtain rfl := Option.some.inj hvalue
      rfl
    | date moment =>
      obtain rfl := Option.some.inj hvalue
      rw [String.toList_ofList]
      rfl
    | _ => cases hvalue
  obtain rfl | ⟨hleft, hright⟩ | ⟨content, hleft, hright⟩ := h
  · rfl
  · rw [hnull left hleft, hnull right hright]
  · rw [hcontent left content hleft, hcontent right content hright]

mutual

/-- Expressions that are alike have the same text. -/
theorem Expr.Alike.render_eq {left right : Expr} : left.Alike right → left.render = right.render
  | .binary hleft hright => by
    rw [Expr.render, Expr.render, hleft.render_eq, hright.render_eq]
  | .unary hoperand => by rw [Expr.render, Expr.render, hoperand.render_eq]
  | .column c => rfl
  | .literal hvalue => by rw [Expr.render, Expr.render, hvalue.render_eq]
  | .call hlength hargs => by
    rw [Expr.render_call, Expr.render_call,
      map_eq_of_zip hlength fun pair hpair => (hargs pair hpair).render_eq]
  | .inList helement hlength hvalues => by
    rw [Expr.render, Expr.render, inListText, inListText, helement.render_eq,
      map_eq_of_zip hlength fun pair hpair => (hvalues pair hpair).render_eq]
  | .joinLeft hcarrier => by rw [Expr.render, hcarrier.render_eq]
  | .joinRight hcarrier => by rw [hcarrier.render_eq, Expr.render]
  | .existsRow hquery => by rw [Expr.render, Expr.render, hquery.render_eq]

/-- Items that are alike have the same text. -/
theorem Projection.Alike.render_eq {left right : Projection} :
    left.Alike right → left.render = right.render
  | .expr hexpression => by rw [Projection.render, Projection.render, hexpression.render_eq]
  | .aliased hexpression label => by
    rw [Projection.render, Projection.render, hexpression.render_eq]
  | .wildcard table => rfl

/-- Terms that are alike have the same text. -/
theorem SortKey.Alike.termText_eq {left right : Option SortKey} :
    SortKey.Alike left right → SortKey.termText left = SortKey.termText right
  | .missing => rfl
  | .key hexpression direction => by
    rw [SortKey.termText, SortKey.termText, SortKey.render, SortKey.render, hexpression.render_eq]

/-- Statements that are alike have the same text. -/
theorem Query.Alike.render_eq {left right : Query} : left.Alike right → left.render = right.render
  | .intro hresults eachResult htables hpredicates eachPredicate _ hterms eachTerm => by
    have hitems := map_eq_of_zip hresults fun pair hpair => (eachResult pair hpair).render_eq
    have hconditions :=
      map_eq_of_zip hpredicates fun pair hpair => (eachPredicate pair hpair).render_eq
    have hkeys := map_eq_of_zip hterms fun pair hpair => (eachTerm pair hpair).termText_eq
    rw [Query.render_eq, Query.render_eq]
    unfold selectText
    rw [clause_order, clause_order, htables, hitems, hconditions, hkeys]

end

/-! ## Literals with the same token -/

namespace Literal

/-- The numeral of an infinity is read as no finite real. -/
theorem toBinary64?_infiniteNumeral (negative : Bool) :
    (infiniteNumeral negative).toBinary64? = none := by
  revert negative
  decide +kernel

/-- Only a literal that is written as NULL is NULL in SQL. -/
theorem isNullText_of_constant {value : Literal} (h : value.constant = .null) :
    value.isNullText = true := by
  cases value with
  | null => rfl
  | real x =>
    simp only [constant, realConstant] at h
    split at h
    · assumption
    · split at h <;> cases h
  | _ => cases h

/-- A literal that is a text in SQL has that content. -/
theorem content?_of_constant {value : Literal} {content : String}
    (h : value.constant = .text content) : value.content? = some content := by
  cases value with
  | text content' => exact congrArg some (SqlConstant.text.inj h)
  | date moment => exact congrArg some (SqlConstant.text.inj h)
  | real x =>
    simp only [constant, realConstant] at h
    split at h
    · cases h
    · split at h <;> cases h
  | _ => cases h

/-- A real that is written as a number is an infinity, or the numeral is read as it. -/
theorem numeral_of_realConstant {x : Binary64} {numeral : Numeral}
    (h : realConstant x = .number numeral) :
    (x.isInfinite = true ∧ numeral = infiniteNumeral x.negative) ∨
      (numeral.toBinary64? = some x ∧ numeral.toInt? = none) := by
  unfold realConstant at h
  split at h
  · cases h
  · next hnan =>
    split at h
    · next hinfinite => exact .inl ⟨hinfinite, (SqlConstant.number.inj h).symm⟩
    · next hinfinite =>
      have hfinite : x.isFinite = true := Binary64.isFinite_iff.2
        ⟨Bool.eq_false_of_not_eq_true hnan, Bool.eq_false_of_not_eq_true hinfinite⟩
      rw [← SqlConstant.number.inj h]
      exact .inr ⟨DecimalNotation.toBinary64?_numeral realNotation hfinite,
        DecimalNotation.toInt?_numeral realNotation x⟩

/-- A real that is written as a number can be told from its numeral. -/
theorem eq_of_realConstant {x y : Binary64} {numeral : Numeral}
    (hx : realConstant x = .number numeral) (hy : realConstant y = .number numeral) : x = y := by
  obtain ⟨hxinf, rfl⟩ | ⟨hxread, -⟩ := numeral_of_realConstant hx
  · obtain ⟨hyinf, hsame⟩ | ⟨hyread, -⟩ := numeral_of_realConstant hy
    · have hsign : x.negative = y.negative := congrArg Numeral.negative hsame
      have hmagnitude : x.magnitude = y.magnitude :=
        (of_decide_eq_true hxinf).trans (of_decide_eq_true hyinf).symm
      rw [← Binary64.ofParts_negative_magnitude x, hsign, hmagnitude,
        Binary64.ofParts_negative_magnitude]
    · rw [toBinary64?_infiniteNumeral] at hyread
      cases hyread
  · obtain ⟨-, rfl⟩ | ⟨hyread, -⟩ := numeral_of_realConstant hy
    · rw [toBinary64?_infiniteNumeral] at hxread
      cases hxread
    · exact Option.some.inj (hxread.symm.trans hyread)

/-- A number that a real is written as is no integer. -/
theorem toInt?_of_realConstant {x : Binary64} {numeral : Numeral}
    (h : realConstant x = .number numeral) : numeral.toInt? = none := by
  obtain ⟨-, rfl⟩ | ⟨-, hnone⟩ := numeral_of_realConstant h
  · rfl
  · exact hnone

/-- Literals that are the same number in SQL are equal. -/
theorem eq_of_constant_number {left right : Literal} {numeral : Numeral}
    (hleft : left.constant = .number numeral) (hright : right.constant = .number numeral) :
    left = right := by
  cases left with
  | integer number =>
    have hnumber : Numeral.ofInt number.toInt = numeral := SqlConstant.number.inj hleft
    have hread : numeral.toInt? = some number.toInt := by rw [← hnumber, Numeral.toInt?_ofInt]
    cases right with
    | integer number' =>
      have hnumber' : Numeral.ofInt number'.toInt = numeral := SqlConstant.number.inj hright
      rw [← hnumber', Numeral.toInt?_ofInt] at hread
      rw [Int64.toInt_inj.1 (Option.some.inj hread)]
    | real y =>
      rw [toInt?_of_realConstant hright] at hread
      cases hread
    | _ => cases hright
  | real x =>
    cases right with
    | integer number' =>
      have hnumber' : Numeral.ofInt number'.toInt = numeral := SqlConstant.number.inj hright
      have hnone := toInt?_of_realConstant hleft
      rw [← hnumber', Numeral.toInt?_ofInt] at hnone
      cases hnone
    | real y => rw [eq_of_realConstant hleft hright]
    | _ => cases hright
  | _ => cases hleft

/-- Literals that are the same bytes in SQL are equal. -/
theorem eq_of_constant_blob {value : Literal} {bytes : List UInt8}
    (h : value.constant = .blob bytes) : value = .blob bytes := by
  cases value with
  | blob bytes' => rw [SqlConstant.blob.inj h]
  | real x =>
    simp only [constant, realConstant] at h
    split at h
    · cases h
    · split at h <;> cases h
  | _ => cases h

/-- Literals with the same token are alike. -/
theorem alike_of_constant_eq {left right : Literal} (h : left.constant = right.constant) :
    left.Alike right := by
  cases hleft : left.constant with
  | null => exact .inr (.inl ⟨isNullText_of_constant hleft, isNullText_of_constant (h ▸ hleft)⟩)
  | text content =>
    exact .inr (.inr ⟨content, content?_of_constant hleft, content?_of_constant (h ▸ hleft)⟩)
  | number numeral => exact .inl (eq_of_constant_number hleft (h ▸ hleft))
  | blob bytes => exact .inl ((eq_of_constant_blob hleft).trans (eq_of_constant_blob (h ▸ hleft)).symm)

end Literal

/-! ## Trees that are equal -/

namespace Expr

/-- The expression without the joins around it. -/
def core : Expr → Expr
  | join _ _ carrier => carrier.core
  | e => e

/-- The joins around an expression do not show in its tree. -/
theorem sqlTree_core (e : Expr) : e.core.sqlTree = e.sqlTree := by
  fun_induction core e with
  | case1 left right carrier ih => rw [ih, sqlTree]
  | case2 => rfl

theorem core_ne_join (e : Expr) (left right : Column) (carrier : Expr) :
    e.core ≠ join left right carrier := by
  fun_induction core e with
  | case1 left' right' carrier' ih => exact ih
  | case2 e hne => exact hne left right carrier

/-- What is like the core of an expression is like the expression. -/
theorem alike_of_core {e other : Expr} (h : e.Alike other.core) : e.Alike other := by
  fun_induction core other with
  | case1 left right carrier ih => exact .joinRight (ih h)
  | case2 => exact h

/-- To be like every expression with the same tree it is enough to be like those that are no
joins. -/
theorem alike_of_ne_join {e : Expr}
    (h : ∀ other : Expr, (∀ left right carrier, other ≠ join left right carrier) →
      e.sqlTree = other.sqlTree → e.Alike other) :
    ∀ other : Expr, e.sqlTree = other.sqlTree → e.Alike other := by
  intro other hsame
  apply alike_of_core
  exact h other.core other.core_ne_join (hsame.trans other.sqlTree_core.symm)

end Expr

/-- A table is known by its name. -/
theorem Table.eq_of_name_eq {left right : Table} (h : left.name = right.name) : left = right := by
  obtain ⟨name⟩ := left
  obtain ⟨name'⟩ := right
  exact congrArg Table.mk h

/-- Items with the same tree are alike if their expressions are. -/
theorem Projection.alike_of_sqlTree_eq {result other : Projection}
    (h : ∀ e ∈ result.expression?, ∀ other : Expr, e.sqlTree = other.sqlTree → e.Alike other)
    (hsame : result.sqlTree = other.sqlTree) : result.Alike other := by
  cases result with
  | expr expression =>
    cases other with
    | expr expression' => exact .expr (h expression rfl _ (SqlItem.expr.inj hsame))
    | _ => cases hsame
  | aliased expression label =>
    cases other with
    | aliased expression' label' =>
      obtain ⟨htree, rfl⟩ := SqlItem.aliased.inj hsame
      exact .aliased (h expression rfl _ htree) label
    | _ => cases hsame
  | wildcard table =>
    cases other with
    | wildcard table' =>
      obtain rfl := Table.eq_of_name_eq (SqlItem.wildcard.inj hsame)
      exact .wildcard table
    | _ => cases hsame

/-- Terms with the same tree are alike if their expressions are. -/
theorem SortKey.alike_of_sqlTerm_eq {term other : Option SortKey}
    (h : ∀ key ∈ term, ∀ other : Expr, key.expression.sqlTree = other.sqlTree →
      key.expression.Alike other)
    (hsame : SortKey.sqlTerm term = SortKey.sqlTerm other) : SortKey.Alike term other := by
  cases term with
  | none =>
    cases other with
    | none => exact .missing
    | some key' =>
      obtain ⟨expression', direction'⟩ := key'
      cases hsame
  | some key =>
    obtain ⟨expression, direction⟩ := key
    cases other with
    | none => cases hsame
    | some key' =>
      obtain ⟨expression', direction'⟩ := key'
      obtain ⟨htree, rfl⟩ := SqlTerm.key.inj hsame
      exact .key (h _ rfl _ htree) direction

/-- Sets whose tables have the same names in the same order are equal. -/
theorem TableSet.eq_of_names_eq {left right : TableSet}
    (h : left.toList.map Table.name = right.toList.map Table.name) : left = right := by
  have hlists : left.toList = right.toList :=
    (List.map_inj_right fun _ _ => Table.eq_of_name_eq).1 h
  exact TableSet.ext fun table => by rw [TableSet.mem_def, TableSet.mem_def, hlists]

/-- Statements with the same tree are alike if their expressions are. -/
theorem Query.alike_of_sqlTree_eq {query other : Query}
    (h : ∀ e ∈ query.expressions, ∀ other : Expr, e.sqlTree = other.sqlTree → e.Alike other)
    (hsame : query.sqlTree = other.sqlTree) : query.Alike other := by
  rw [Query.sqlTree_eq, Query.sqlTree_eq] at hsame
  obtain ⟨hitems, hnames, hconditions, hkeys⟩ := SqlStatement.mk.inj hsame
  obtain ⟨hresults, eachResult⟩ := zip_of_map_eq hitems
  obtain ⟨hpredicates, eachPredicate⟩ := zip_of_map_eq hconditions
  obtain ⟨hterms, eachTerm⟩ := zip_of_map_eq hkeys
  have horder : query.order = [] ↔ other.order = [] := by
    rw [← Query.terms_eq_nil_iff, ← Query.terms_eq_nil_iff, ← List.length_eq_zero_iff, hterms,
      List.length_eq_zero_iff]
  refine .intro hresults ?_ (TableSet.eq_of_names_eq hnames) hpredicates ?_ horder hterms ?_
  · intro pair hpair
    obtain ⟨hmem, htree⟩ := eachResult pair hpair
    exact Projection.alike_of_sqlTree_eq
      (fun e he => h e (mem_expressions_of_mem_results hmem he)) htree
  · intro pair hpair
    obtain ⟨hmem, htree⟩ := eachPredicate pair hpair
    exact h pair.1 (mem_expressions_of_mem_predicates hmem) pair.2 htree
  · intro pair hpair
    obtain ⟨hmem, htree⟩ := eachTerm pair hpair
    exact SortKey.alike_of_sqlTerm_eq
      (fun key hkey => h _ (mem_expressions_of_mem_terms hmem hkey)) htree

/-- Expressions and statements with the same tree are alike. -/
theorem alike_trees :
    TreeInduction (fun e => ∀ other : Expr, e.sqlTree = other.sqlTree → e.Alike other)
      (fun query => ∀ other : Query, query.sqlTree = other.sqlTree → query.Alike other) where
  binary {op left right} hleft hright := by
    refine Expr.alike_of_ne_join fun other hne hsame => ?_
    cases other with
    | binary op' left' right' =>
      obtain ⟨rfl, hleft', hright'⟩ := SqlExpr.binary.inj hsame
      exact .binary (hleft _ hleft') (hright _ hright')
    | join => exact absurd rfl (hne _ _ _)
    | _ => cases hsame
  unary {op operand} hoperand := by
    refine Expr.alike_of_ne_join fun other hne hsame => ?_
    cases other with
    | unary op' operand' =>
      obtain ⟨rfl, hoperand'⟩ := SqlExpr.unary.inj hsame
      exact .unary (hoperand _ hoperand')
    | join => exact absurd rfl (hne _ _ _)
    | _ => cases hsame
  column c := by
    refine Expr.alike_of_ne_join fun other hne hsame => ?_
    cases other with
    | column c' =>
      obtain ⟨⟨table⟩, label⟩ := c
      obtain ⟨⟨table'⟩, label'⟩ := c'
      obtain ⟨rfl, rfl⟩ := SqlExpr.column.inj hsame
      exact .column _
    | join => exact absurd rfl (hne _ _ _)
    | _ => cases hsame
  literal value := by
    refine Expr.alike_of_ne_join fun other hne hsame => ?_
    cases other with
    | literal value' => exact .literal (Literal.alike_of_constant_eq (SqlExpr.constant.inj hsame))
    | join => exact absurd rfl (hne _ _ _)
    | _ => cases hsame
  call {function args} hargs := by
    refine Expr.alike_of_ne_join fun other hne hsame => ?_
    cases other with
    | call function' args' =>
      rw [Expr.sqlTree_call, Expr.sqlTree_call] at hsame
      obtain ⟨rfl, hlists⟩ := SqlExpr.call.inj hsame
      obtain ⟨hlength, eachArg⟩ := zip_of_map_eq hlists
      refine .call hlength fun pair hpair => ?_
      obtain ⟨hmem, htree⟩ := eachArg pair hpair
      exact hargs pair.1 hmem pair.2 htree
    | join => exact absurd rfl (hne _ _ _)
    | _ => cases hsame
  inList {element values} helement := by
    refine Expr.alike_of_ne_join fun other hne hsame => ?_
    cases other with
    | inList element' values' =>
      obtain ⟨helement', hlists⟩ := SqlExpr.inList.inj hsame
      obtain ⟨hlength, eachValue⟩ := zip_of_map_eq hlists
      exact .inList (helement _ helement') hlength fun pair hpair =>
        Literal.alike_of_constant_eq (eachValue pair hpair).2
    | join => exact absurd rfl (hne _ _ _)
    | _ => cases hsame
  join hcarrier := fun other hsame => .joinLeft (hcarrier other hsame)
  existsRow {query} hquery := by
    refine Expr.alike_of_ne_join fun other hne hsame => ?_
    cases other with
    | existsRow query' => exact .existsRow (hquery _ (SqlExpr.existsRow.inj hsame))
    | join => exact absurd rfl (hne _ _ _)
    | _ => cases hsame
  query hexpressions := fun _ hsame => Query.alike_of_sqlTree_eq hexpressions hsame

/-! ## Texts that are equal -/

/-- Two statements have the same text if and only if they are alike, and so have two expressions. -/
theorem sql_eq_sql_iff :
    (∀ left right : Query, sql left = sql right ↔ left.Alike right) ∧
      ∀ left right : Expr, sql left = sql right ↔ left.Alike right := by
  refine ⟨fun left right => ⟨fun h => ?_, fun h => ?_⟩, fun left right => ⟨fun h => ?_, fun h => ?_⟩⟩
  · have htokens : some left.sqlTree.tokens = some right.sqlTree.tokens := by
      rw [← sqlTokens?_query, ← sqlTokens?_query, h]
    have htree := statementTree_eq_of_tokens_eq (Option.some.inj htokens)
    exact alike_trees.statement left right htree.symm
  · exact congrArg String.ofList h.render_eq
  · have htokens : some left.sqlTree.tokens = some right.sqlTree.tokens := by
      rw [← sqlTokens?_expr, ← sqlTokens?_expr, h]
    have htree := sqlTree_eq_of_tokens_eq (Option.some.inj htokens)
    exact alike_trees.expr left right htree.symm
  · exact congrArg String.ofList h.render_eq

end SqlSelect
