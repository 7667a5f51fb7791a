import SqlSelect.Proofs.Sql.Statement

/-!
# Trees are read from their tokens

The tokens of an expression or a statement belong to no other SQL tree, even if more tokens follow:
those of an expression end where its parentheses close, and a statement goes on until something that
no clause starts with. In a list the items are told apart because what separates or ends them starts
no item.
-/

namespace SqlSelect

open SqlToken

/-- The tokens that start no item of a list. -/
def stops : List SqlToken :=
  [comma, mark ")", word "AND", word "FROM", word "WHERE", word "ORDER", word "NOT"]

/-- Nothing follows, or one of the given tokens. -/
def Heads (allowed rest : List SqlToken) : Prop := ∀ token ∈ rest.head?, token ∈ allowed

/-- The tokens of `a` belong to nothing else, if what follows is of a certain form. -/
def Exact {α : Type} (follows : List SqlToken → Prop) (tokens : α → List SqlToken) (a : α) : Prop :=
  ∀ b rest other, follows rest → follows other →
    tokens a ++ rest = tokens b ++ other → b = a ∧ other = rest

/-! ## Heads -/

/-- A token at the front is one of those that are allowed. -/
theorem Heads.mem {allowed rest : List SqlToken} {token : SqlToken}
    (h : Heads allowed (token :: rest)) : token ∈ allowed := h token rfl

theorem Heads.imp {allowed more rest : List SqlToken} (h : Heads allowed rest)
    (hsub : ∀ token ∈ allowed, token ∈ more) : Heads more rest :=
  fun token htoken => hsub token (h token htoken)

theorem heads_cons {allowed : List SqlToken} {token : SqlToken} (h : token ∈ allowed)
    (rest : List SqlToken) : Heads allowed (token :: rest) := by
  intro first hfirst
  obtain rfl : token = first := Option.some.inj hfirst
  exact h

/-- A clause starts with its keyword, or with what follows it. -/
theorem heads_clause {allowed rest : List SqlToken} (keyword : String) (keywords : List String)
    (separator : SqlToken) (items : List (List SqlToken)) (h : Heads allowed rest) :
    Heads (word keyword :: allowed)
      (SqlToken.clause (keyword :: keywords) separator items ++ rest) := by
  unfold SqlToken.clause
  split
  · exact h.imp fun _ => List.mem_cons_of_mem _
  · exact heads_cons List.mem_cons_self _

/-! ## Lists -/

section Lists

variable {α : Type} {tokens : α → List SqlToken} {separator : SqlToken}
  {allowed : List SqlToken}

theorem separated_cons_cons (separator : SqlToken) (first second : List SqlToken)
    (rest : List (List SqlToken)) :
    separated separator (first :: second :: rest) =
      first ++ separator :: separated separator (second :: rest) := by
  simp [separated, List.intercalate_cons_cons]

/-- A list with items is the only one with its tokens. -/
theorem separated_exact (hseparator : separator ∈ stops) (hallowed : ∀ token ∈ allowed, token ∈ stops)
    (hnot : separator ∉ allowed) {list : List α} (other : List α)
    (h : ∀ a ∈ list, Exact (Heads stops) tokens a) (hlist : list ≠ []) (hother : other ≠ [])
    {rest after : List SqlToken} (hrest : Heads allowed rest) (hafter : Heads allowed after)
    (heq : separated separator (list.map tokens) ++ rest =
      separated separator (other.map tokens) ++ after) : other = list ∧ after = rest := by
  induction list generalizing other with
  | nil => exact absurd rfl hlist
  | cons a list ih =>
    cases other with
    | nil => exact absurd rfl hother
    | cons b other =>
      have ha := h a List.mem_cons_self
      have hends := hrest.imp hallowed
      have hends' := hafter.imp hallowed
      cases list with
      | nil =>
        cases other with
        | nil =>
          obtain ⟨rfl, rfl⟩ := ha b rest after hends hends' (by simpa [separated] using heq)
          exact ⟨rfl, rfl⟩
        | cons b' other =>
          rw [List.map_cons, List.map_cons, List.map_cons, separated_cons_cons] at heq
          obtain ⟨-, htail⟩ := ha b rest _ hends (heads_cons hseparator _)
            (by simpa [separated] using heq)
          rw [← htail] at hrest
          exact absurd hrest.mem hnot
      | cons a' list =>
        cases other with
        | nil =>
          rw [List.map_cons, List.map_cons, List.map_cons, separated_cons_cons] at heq
          obtain ⟨-, htail⟩ := ha b _ after (heads_cons hseparator _) hends'
            (by simpa [separated] using heq)
          rw [htail] at hafter
          exact absurd hafter.mem hnot
        | cons b' other =>
          rw [List.map_cons, List.map_cons, List.map_cons, List.map_cons, separated_cons_cons,
            separated_cons_cons, List.append_assoc, List.append_assoc] at heq
          obtain ⟨rfl, htail⟩ := ha b _ _ (heads_cons hseparator _) (heads_cons hseparator _) heq
          have htails := (List.cons.inj htail).2
          obtain ⟨hsame, rfl⟩ := ih (b' :: other)
            (fun c hc => h c (List.mem_cons_of_mem _ hc)) (List.cons_ne_nil _ _)
            (List.cons_ne_nil _ _) htails.symm
          exact ⟨by rw [hsame], rfl⟩

/-- An item starts with a token that ends no item. -/
def Starts (tokens : List SqlToken) : Prop := ∃ first more, tokens = first :: more ∧ first ∉ stops

/-- What starts an item is not what may follow one. -/
theorem Starts.not_heads {text more : List SqlToken} (h : Starts text)
    (hheads : Heads stops (text ++ more)) : False := by
  obtain ⟨first, others, rfl, hfirst⟩ := h
  exact hfirst hheads.mem

/-- A separated list starts like its first item. -/
theorem starts_separated (hstarts : ∀ a : α, Starts (tokens a)) {list : List α} (hne : list ≠ []) :
    Starts (separated separator (list.map tokens)) := by
  cases list with
  | nil => exact absurd rfl hne
  | cons a list =>
    obtain ⟨first, more, htokens, hfirst⟩ := hstarts a
    cases list with
    | nil => exact ⟨first, more, by simpa [separated] using htokens, hfirst⟩
    | cons b list =>
      rw [List.map_cons, List.map_cons, separated_cons_cons, htokens, List.cons_append]
      exact ⟨first, _, rfl, hfirst⟩

/-- A list whose items are not empty is the only one with its tokens, even if it has no items. -/
theorem separated_exact_of_starts (hseparator : separator ∈ stops)
    (hallowed : ∀ token ∈ allowed, token ∈ stops) (hnot : separator ∉ allowed)
    (hstarts : ∀ a : α, Starts (tokens a)) {list other : List α}
    (h : ∀ a ∈ list, Exact (Heads stops) tokens a)
    {rest after : List SqlToken} (hrest : Heads allowed rest) (hafter : Heads allowed after)
    (heq : separated separator (list.map tokens) ++ rest =
      separated separator (other.map tokens) ++ after) : other = list ∧ after = rest := by
  by_cases hlist : list = []
  · by_cases hother : other = []
    · subst hlist hother
      exact ⟨rfl, heq.symm⟩
    · subst hlist
      have hheads : Heads stops (separated separator (other.map tokens) ++ after) :=
        heq ▸ hrest.imp hallowed
      exact ((starts_separated hstarts hother).not_heads hheads).elim
  · by_cases hother : other = []
    · subst hother
      have hheads : Heads stops (separated separator (list.map tokens) ++ rest) :=
        heq ▸ hafter.imp hallowed
      exact ((starts_separated hstarts hlist).not_heads hheads).elim
    · exact separated_exact hseparator hallowed hnot other h hlist hother hrest hafter heq

/-- A clause is the only one with its tokens. -/
theorem clause_exact (keyword : String) (keywords : List String) (hseparator : separator ∈ stops)
    (hallowed : ∀ token ∈ allowed, token ∈ stops) (hnot : separator ∉ allowed)
    (hkeyword : word keyword ∉ allowed) {list other : List α}
    (h : ∀ a ∈ list, Exact (Heads stops) tokens a)
    {rest after : List SqlToken} (hrest : Heads allowed rest) (hafter : Heads allowed after)
    (heq : SqlToken.clause (keyword :: keywords) separator (list.map tokens) ++ rest =
      SqlToken.clause (keyword :: keywords) separator (other.map tokens) ++ after) :
    other = list ∧ after = rest := by
  unfold SqlToken.clause at heq
  simp only [List.map_eq_nil_iff] at heq
  by_cases hlist : list = []
  · by_cases hother : other = []
    · rw [if_pos hlist, if_pos hother] at heq
      exact ⟨hother.trans hlist.symm, heq.symm⟩
    · rw [if_pos hlist, if_neg hother, List.nil_append] at heq
      rw [heq] at hrest
      exact absurd hrest.mem hkeyword
  · by_cases hother : other = []
    · rw [if_neg hlist, if_pos hother, List.nil_append] at heq
      rw [← heq] at hafter
      exact absurd hafter.mem hkeyword
    · rw [if_neg hlist, if_neg hother, List.append_assoc, List.append_assoc] at heq
      exact separated_exact hseparator hallowed hnot other h hlist hother hrest hafter
        (List.append_cancel_left heq)

end Lists

/-! ## Expressions -/

/-- An expression starts with a token that ends no item. -/
theorem starts_expr (tree : SqlExpr) : Starts tree.tokens := by
  cases tree with
  | constant c =>
    refine ⟨c.token, [], by rw [SqlExpr.tokens], ?_⟩
    cases c <;> simp [SqlConstant.token, stops, comma]
  | column table label => exact ⟨name table, _, by rw [SqlExpr.tokens], by simp [stops, comma]⟩
  | binary op left right => exact ⟨mark "(", _, by rw [SqlExpr.tokens], by decide⟩
  | unary op operand => exact ⟨mark "(", _, by rw [SqlExpr.tokens], by decide⟩
  | call function args =>
    refine ⟨word function.symbol, _, by rw [SqlExpr.tokens], ?_⟩
    cases function <;> decide
  | inList element values => exact ⟨mark "(", _, by rw [SqlExpr.tokens], by decide⟩
  | existsRow statement => exact ⟨word "EXISTS", _, by rw [SqlExpr.tokens], by decide⟩

/-- There is no condition on the tokens that follow an expression. -/
def Unbounded (_ : List SqlToken) : Prop := True

/-- An operator is told from what follows it. -/
theorem operator_exact {left right : BinaryOp} {operand operand' : SqlExpr}
    {rest other : List SqlToken}
    (heq : operator left ++ (operand.tokens ++ rest) = operator right ++ (operand'.tokens ++ other)) :
    right = left ∧ operand.tokens ++ rest = operand'.tokens ++ other := by
  obtain ⟨first, more, hfirst, hnot⟩ := starts_expr operand
  obtain ⟨first', more', hfirst', hnot'⟩ := starts_expr operand'
  have hne : first ≠ word "NOT" := by
    intro heqfirst
    exact hnot (heqfirst ▸ by decide)
  have hne' : word "NOT" ≠ first' := by
    intro heqfirst
    exact hnot' (heqfirst ▸ by decide)
  rw [hfirst, hfirst'] at heq ⊢
  cases left <;> cases right <;> simp_all [operator]

/-- The word IN is no operator. -/
theorem operator_ne_in (op : BinaryOp) {rest other : List SqlToken} :
    operator op ++ rest ≠ word "IN" :: other := by
  cases op <;> simp [operator]

theorem exact_column (c : Column) : Exact Unbounded SqlExpr.tokens (Expr.column c).sqlTree := by
  intro tree rest other _ _ heq
  rw [Expr.sqlTree] at heq ⊢
  cases tree with
  | constant d => cases d <;> simp [SqlExpr.tokens, SqlConstant.token] at heq
  | column table label => simpa [SqlExpr.tokens, eq_comm, and_assoc] using heq
  | _ => simp [SqlExpr.tokens] at heq

theorem exact_literal (value : Literal) :
    Exact Unbounded SqlExpr.tokens (Expr.literal value).sqlTree := by
  intro tree rest other _ _ heq
  rw [Expr.sqlTree] at heq ⊢
  generalize value.constant = c at heq ⊢
  cases tree with
  | constant d => cases c <;> cases d <;> simp_all [SqlExpr.tokens, SqlConstant.token]
  | call function args =>
    cases c <;> cases function <;> simp [SqlExpr.tokens, SqlConstant.token, FunctionName.symbol] at heq
  | _ => cases c <;> simp [SqlExpr.tokens, SqlConstant.token] at heq

variable {left right operand element : Expr}

theorem exact_binary (op : BinaryOp) (hleft : Exact Unbounded SqlExpr.tokens left.sqlTree)
    (hright : Exact Unbounded SqlExpr.tokens right.sqlTree) :
    Exact Unbounded SqlExpr.tokens (Expr.binary op left right).sqlTree := by
  intro tree rest other _ _ heq
  rw [Expr.sqlTree] at heq ⊢
  cases tree with
  | constant d => cases d <;> simp [SqlExpr.tokens, SqlConstant.token] at heq
  | binary op' left' right' =>
    simp only [SqlExpr.tokens, List.cons_append, List.append_assoc, List.cons.injEq, true_and] at heq
    obtain ⟨rfl, hop⟩ := hleft _ _ _ trivial trivial heq
    obtain ⟨rfl, hoperand⟩ := operator_exact hop.symm
    obtain ⟨rfl, htail⟩ := hright _ _ _ trivial trivial hoperand
    exact ⟨rfl, by simpa using htail⟩
  | unary op' operand' =>
    simp only [SqlExpr.tokens, List.cons_append, List.append_assoc, List.cons.injEq, true_and] at heq
    obtain ⟨first, more, hfirst, hnot⟩ := starts_expr left.sqlTree
    rw [hfirst] at heq
    have hword := (List.cons.inj heq).1
    cases op'
    exact absurd (hword ▸ by decide) hnot
  | inList element' values =>
    simp only [SqlExpr.tokens, List.cons_append, List.append_assoc, List.cons.injEq, true_and] at heq
    obtain ⟨-, hop⟩ := hleft _ _ _ trivial trivial heq
    exact absurd hop.symm (operator_ne_in op)
  | _ => simp [SqlExpr.tokens] at heq

theorem exact_unary (op : UnaryOp) (hoperand : Exact Unbounded SqlExpr.tokens operand.sqlTree) :
    Exact Unbounded SqlExpr.tokens (Expr.unary op operand).sqlTree := by
  intro tree rest other _ _ heq
  rw [Expr.sqlTree] at heq ⊢
  cases op
  cases tree with
  | constant d => cases d <;> simp [SqlExpr.tokens, SqlConstant.token] at heq
  | unary op' operand' =>
    cases op'
    simp only [SqlExpr.tokens, List.cons_append, List.append_assoc, List.cons.injEq, true_and] at heq
    obtain ⟨rfl, htail⟩ := hoperand _ _ _ trivial trivial heq
    exact ⟨rfl, by simpa using htail⟩
  | binary op' left' right' =>
    simp only [SqlExpr.tokens, List.cons_append, List.append_assoc, List.cons.injEq, true_and] at heq
    obtain ⟨first, more, hfirst, hnot⟩ := starts_expr left'
    rw [hfirst] at heq
    have hword := (List.cons.inj heq).1
    exact absurd (hword ▸ by decide) hnot
  | inList element' values =>
    simp only [SqlExpr.tokens, List.cons_append, List.append_assoc, List.cons.injEq, true_and] at heq
    obtain ⟨first, more, hfirst, hnot⟩ := starts_expr element'
    rw [hfirst] at heq
    have hword := (List.cons.inj heq).1
    exact absurd (hword ▸ by decide) hnot
  | _ => simp [SqlExpr.tokens] at heq

/-- A list in parentheses is the only one with its tokens. -/
theorem parenthesized_exact {α : Type} {tokens : α → List SqlToken}
    (hstarts : ∀ a : α, Starts (tokens a)) {list other : List α}
    (h : ∀ a ∈ list, Exact (Heads stops) tokens a) {rest after : List SqlToken}
    (heq : parenthesized (list.map tokens) ++ rest = parenthesized (other.map tokens) ++ after) :
    other = list ∧ after = rest := by
  simp only [parenthesized, List.cons_append, List.append_assoc, List.cons.injEq, true_and,
    List.nil_append] at heq
  have hclosed : ∀ more, Heads [mark ")"] (mark ")" :: more) := heads_cons List.mem_cons_self
  obtain ⟨hsame, htail⟩ := separated_exact_of_starts (by decide) (by decide) (by decide) hstarts h
    (hclosed rest) (hclosed after) heq
  exact ⟨hsame, (List.cons.inj htail).2⟩

theorem exact_call (function : FunctionName) {args : List Expr}
    (hargs : ∀ arg ∈ args, Exact Unbounded SqlExpr.tokens arg.sqlTree) :
    Exact Unbounded SqlExpr.tokens (Expr.call function args).sqlTree := by
  intro tree rest other _ _ heq
  rw [Expr.sqlTree_call] at heq ⊢
  have hargs' : ∀ arg ∈ args.map Expr.sqlTree, Exact (Heads stops) SqlExpr.tokens arg := by
    intro arg harg
    obtain ⟨e, he, rfl⟩ := List.mem_map.1 harg
    exact fun b rest other _ _ => hargs e he b rest other trivial trivial
  cases tree with
  | constant d =>
    cases function <;> cases d <;>
      simp [SqlExpr.tokens, SqlConstant.token, FunctionName.symbol] at heq
  | call function' args' =>
    simp only [SqlExpr.tokens_call, List.cons_append, List.cons.injEq, word.injEq] at heq
    obtain ⟨hfunction, hlists⟩ := heq
    obtain ⟨rfl, htail⟩ := parenthesized_exact starts_expr hargs' hlists
    refine ⟨?_, htail⟩
    cases function <;> cases function' <;> simp_all [FunctionName.symbol]
  | existsRow statement => cases function <;> simp [SqlExpr.tokens, FunctionName.symbol] at heq
  | _ => simp [SqlExpr.tokens] at heq

/-- A value of a list is one token, which ends no item. -/
theorem starts_constant (c : SqlConstant) : Starts [c.token] := by
  refine ⟨c.token, [], rfl, ?_⟩
  cases c <;> simp [SqlConstant.token, stops, comma]

/-- A constant is the only one with its token. -/
theorem token_inj {c d : SqlConstant} : c.token = d.token ↔ c = d := by
  cases c <;> cases d <;> simp [SqlConstant.token]

theorem exact_inList (values : List Literal)
    (helement : Exact Unbounded SqlExpr.tokens element.sqlTree) :
    Exact Unbounded SqlExpr.tokens (Expr.inList element values).sqlTree := by
  intro tree rest other _ _ heq
  rw [Expr.sqlTree] at heq ⊢
  cases tree with
  | constant d => cases d <;> simp [SqlExpr.tokens, SqlConstant.token] at heq
  | binary op' left' right' =>
    simp only [SqlExpr.tokens, List.cons_append, List.append_assoc, List.cons.injEq, true_and] at heq
    obtain ⟨-, hop⟩ := helement _ _ _ trivial trivial heq
    exact absurd hop (operator_ne_in op')
  | unary op' operand' =>
    cases op'
    simp only [SqlExpr.tokens, List.cons_append, List.append_assoc, List.cons.injEq, true_and] at heq
    obtain ⟨first, more, hfirst, hnot⟩ := starts_expr element.sqlTree
    rw [hfirst] at heq
    have hword := (List.cons.inj heq).1
    exact absurd (hword ▸ by decide) hnot
  | inList element' values' =>
    simp only [SqlExpr.tokens, List.cons_append, List.append_assoc, List.cons.injEq, true_and] at heq
    obtain ⟨rfl, hvalues⟩ := helement _ _ _ trivial trivial heq
    have hexact : ∀ c ∈ values.map Literal.constant,
        Exact (Heads stops) (fun value : SqlConstant => [value.token]) c := by
      intro c _ d rest other _ _ htokens
      obtain ⟨htoken, htail⟩ := List.cons.inj htokens
      exact ⟨token_inj.1 htoken.symm, htail.symm⟩
    obtain ⟨rfl, htail⟩ := parenthesized_exact starts_constant hexact (List.cons.inj hvalues).2.symm
    exact ⟨rfl, by simpa using htail⟩
  | _ => simp [SqlExpr.tokens] at heq

theorem exact_existsRow {query : Query}
    (hquery : Exact (Heads [mark ")"]) SqlStatement.tokens query.sqlTree) :
    Exact Unbounded SqlExpr.tokens (Expr.existsRow query).sqlTree := by
  intro tree rest other _ _ heq
  rw [Expr.sqlTree] at heq ⊢
  cases tree with
  | constant d => cases d <;> simp [SqlExpr.tokens, SqlConstant.token] at heq
  | call function args => cases function <;> simp [SqlExpr.tokens, FunctionName.symbol] at heq
  | existsRow statement =>
    simp only [SqlExpr.tokens, List.cons_append, List.append_assoc, List.cons.injEq, true_and,
      List.nil_append] at heq
    obtain ⟨rfl, htail⟩ := hquery _ _ _ (heads_cons List.mem_cons_self _)
      (heads_cons List.mem_cons_self _) heq
    exact ⟨rfl, (List.cons.inj htail).2⟩
  | _ => simp [SqlExpr.tokens] at heq

/-! ## Statements -/

theorem starts_item (item : SqlItem) : Starts item.tokens := by
  cases item with
  | expr expression => exact starts_expr expression
  | aliased expression label =>
    obtain ⟨first, more, htokens, hfirst⟩ := starts_expr expression
    exact ⟨first, _, by rw [SqlItem.tokens, htokens, List.cons_append], hfirst⟩
  | wildcard table => exact ⟨name table, _, by rw [SqlItem.tokens], by simp [stops, comma]⟩

/-- The word AS follows no item of a list. -/
theorem as_not_heads {rest : List SqlToken} : ¬ Heads stops (word "AS" :: rest) := by
  intro h
  exact absurd h.mem (by decide)

/-- The tokens of all columns of a table are those of no expression. -/
theorem wildcard_ne_expr {table : String} {expression : SqlExpr} {rest other : List SqlToken} :
    [name table, mark ".", mark "*"] ++ rest ≠ expression.tokens ++ other := by
  intro heq
  cases expression with
  | constant d => cases d <;> simp [SqlExpr.tokens, SqlConstant.token] at heq
  | _ => simp [SqlExpr.tokens] at heq

theorem exact_projection {result : Projection}
    (h : ∀ e ∈ result.expression?, Exact Unbounded SqlExpr.tokens e.sqlTree) :
    Exact (Heads stops) SqlItem.tokens result.sqlTree := by
  intro item rest other hrest hother heq
  cases result with
  | expr expression =>
    have hexpression := h expression rfl
    cases item with
    | expr expression' =>
      obtain ⟨rfl, htail⟩ := hexpression _ _ _ trivial trivial heq
      exact ⟨rfl, htail⟩
    | aliased expression' label' =>
      rw [SqlItem.tokens, List.append_assoc] at heq
      obtain ⟨-, htail⟩ := hexpression _ _ _ trivial trivial heq
      rw [← htail] at hrest
      exact absurd hrest as_not_heads
    | wildcard table => exact absurd heq.symm wildcard_ne_expr
  | aliased expression label =>
    have hexpression := h expression rfl
    rw [Projection.sqlTree] at heq ⊢
    rw [SqlItem.tokens, List.append_assoc] at heq
    cases item with
    | expr expression' =>
      obtain ⟨-, htail⟩ := hexpression _ _ _ trivial trivial heq
      rw [htail] at hother
      exact absurd hother as_not_heads
    | aliased expression' label' =>
      rw [SqlItem.tokens, List.append_assoc] at heq
      obtain ⟨rfl, htail⟩ := hexpression _ _ _ trivial trivial heq
      obtain ⟨rfl, rfl⟩ : label' = label ∧ other = rest := by simpa using htail
      exact ⟨rfl, rfl⟩
    | wildcard table => exact absurd heq.symm wildcard_ne_expr
  | wildcard table =>
    cases item with
    | expr expression' => exact absurd heq wildcard_ne_expr
    | aliased expression' label' =>
      rw [SqlItem.tokens, List.append_assoc] at heq
      exact absurd heq wildcard_ne_expr
    | wildcard table' =>
      obtain ⟨rfl, rfl⟩ : table.name = table' ∧ rest = other := by
        simpa [Projection.sqlTree, SqlItem.tokens] using heq
      exact ⟨rfl, rfl⟩

theorem exact_term {term : Option SortKey}
    (h : ∀ key ∈ term, Exact Unbounded SqlExpr.tokens key.expression.sqlTree) :
    Exact (Heads stops) SqlTerm.tokens (SortKey.sqlTerm term) := by
  intro tree rest other hrest hother heq
  cases term with
  | none =>
    cases tree with
    | missing => exact ⟨rfl, heq.symm⟩
    | key expression' direction' =>
      have hheads : Heads stops (expression'.tokens ++ (word direction'.symbol :: other)) := by
        rw [SqlTerm.tokens, List.append_assoc] at heq
        exact heq ▸ hrest
      exact ((starts_expr expression').not_heads hheads).elim
  | some key =>
    obtain ⟨expression, direction⟩ := key
    have hexpression := h ⟨expression, direction⟩ rfl
    rw [SortKey.sqlTerm, SortKey.sqlTree] at heq ⊢
    rw [SqlTerm.tokens, List.append_assoc] at heq
    cases tree with
    | missing =>
      have hheads : Heads stops (expression.sqlTree.tokens ++ (word direction.symbol :: rest)) :=
        heq ▸ hother
      exact ((starts_expr _).not_heads hheads).elim
    | key expression' direction' =>
      rw [SqlTerm.tokens, List.append_assoc] at heq
      obtain ⟨rfl, htail⟩ := hexpression _ _ _ trivial trivial heq
      refine ⟨?_, (List.cons.inj htail).2⟩
      cases direction <;> cases direction' <;> simp_all [Direction.symbol]

theorem exact_query {query : Query}
    (h : ∀ e ∈ query.expressions, Exact Unbounded SqlExpr.tokens e.sqlTree) :
    Exact (Heads [mark ")"]) SqlStatement.tokens query.sqlTree := by
  intro statement rest other hrest hother heq
  obtain ⟨items, tables, conditions, terms⟩ := statement
  have hresults : ∀ item ∈ query.results.map Projection.sqlTree,
      Exact (Heads stops) SqlItem.tokens item := by
    intro item hitem
    obtain ⟨result, hresult, rfl⟩ := List.mem_map.1 hitem
    exact exact_projection fun e he => h e (mem_expressions_of_mem_results hresult he)
  have htables : ∀ table ∈ query.tables.toList.map Table.name,
      Exact (Heads stops) (fun label : String => [name label]) table := by
    intro table _ table' rest other _ _ htokens
    simpa [eq_comm] using htokens
  have hpredicates : ∀ condition ∈ query.predicates.map Expr.sqlTree,
      Exact (Heads stops) SqlExpr.tokens condition := by
    intro condition hcondition
    obtain ⟨predicate, hpredicate, rfl⟩ := List.mem_map.1 hcondition
    exact fun b rest other _ _ =>
      h predicate (mem_expressions_of_mem_predicates hpredicate) b rest other trivial trivial
  have hterms : ∀ term ∈ query.terms.map SortKey.sqlTerm, Exact (Heads stops) SqlTerm.tokens term := by
    intro tree htree
    obtain ⟨term, hterm, rfl⟩ := List.mem_map.1 htree
    exact exact_term fun key hkey => h _ (mem_expressions_of_mem_terms hterm hkey)
  rw [Query.sqlTree_eq] at heq ⊢
  simp only [SqlStatement.tokens_eq, select, List.cons_append, List.append_assoc, List.cons.injEq,
    true_and] at heq
  -- What follows each clause starts with the keyword of a later one, or closes a parenthesis.
  have horder := fun terms {rest : List SqlToken} (hrest : Heads [mark ")"] rest) =>
    heads_clause "ORDER" ["BY"] comma terms hrest
  have hwhere := fun conditions terms {rest : List SqlToken} (hrest : Heads [mark ")"] rest) =>
    heads_clause "WHERE" [] (word "AND") conditions (horder terms hrest)
  have hfrom := fun tables conditions terms {rest : List SqlToken} (hrest : Heads [mark ")"] rest) =>
    heads_clause "FROM" [] comma tables (hwhere conditions terms hrest)
  obtain ⟨rfl, hclauses⟩ := separated_exact_of_starts (by decide) (by decide) (by decide)
    starts_item hresults (hfrom _ _ _ hrest) (hfrom _ _ _ hother) heq
  obtain ⟨rfl, hconditions⟩ := clause_exact "FROM" [] (by decide) (by decide) (by decide)
    (by decide) htables (hwhere _ _ hrest) (hwhere _ _ hother) hclauses.symm
  obtain ⟨rfl, horders⟩ := clause_exact "WHERE" [] (by decide) (by decide) (by decide) (by decide)
    hpredicates (horder _ hrest) (horder _ hother) hconditions.symm
  obtain ⟨rfl, htail⟩ := clause_exact "ORDER" ["BY"] (by decide) (by decide) (by decide)
    (by decide) hterms hrest hother horders.symm
  exact ⟨rfl, htail⟩

/-- The trees of expressions and statements are read from their tokens. -/
theorem exact_trees :
    TreeInduction (fun e => Exact Unbounded SqlExpr.tokens e.sqlTree)
      (fun query => Exact (Heads [mark ")"]) SqlStatement.tokens query.sqlTree) where
  binary hleft hright := exact_binary _ hleft hright
  unary hoperand := exact_unary _ hoperand
  column c := exact_column c
  literal value := exact_literal value
  call hargs := exact_call _ hargs
  inList helement := exact_inList _ helement
  join hcarrier := hcarrier
  existsRow hquery := exact_existsRow hquery
  query hexpressions := exact_query hexpressions

/-- No other tree has the tokens of an expression. -/
theorem sqlTree_eq_of_tokens_eq {e : Expr} {tree : SqlExpr}
    (h : e.sqlTree.tokens = tree.tokens) : tree = e.sqlTree :=
  (exact_trees.expr e tree [] [] trivial trivial (congrArg (· ++ []) h)).1

/-- No other tree has the tokens of a statement. -/
theorem statementTree_eq_of_tokens_eq {query : Query} {tree : SqlStatement}
    (h : query.sqlTree.tokens = tree.tokens) : tree = query.sqlTree := by
  have hnil : Heads [mark ")"] [] := fun _ htoken => absurd htoken (by simp)
  exact (exact_trees.statement query tree [] [] hnil hnil (congrArg (· ++ []) h)).1

end SqlSelect
