import SqlSelect.Proofs.Binary64.ReadBack
import SqlSelect.Proofs.Sql.Reading
import SqlSelect.Proofs.Sql.Tree
import SqlSelect.Proofs.Tree.Induction

/-!
# Statements are read as their trees

The text of an expression or a statement is split into exactly the tokens of its tree, whatever
names, texts, bytes and numbers it holds. The texts are put together from pieces that end with a
mark or a space and from pieces in front of such a piece, so no token runs on into the next one.
-/

namespace SqlSelect

open SqlToken

/-! ## Putting readings together -/

/-- A text that starts with a stop is bounded, whatever comes behind it. -/
theorem bounded_append {text : List Char} (hne : text ≠ []) (h : Bounded text) (rest : List Char) :
    Bounded (text ++ rest) := by
  cases text with
  | nil => exact absurd rfl hne
  | cons c tail => exact bounded_cons (h c rfl) (tail ++ rest)

namespace ReadsBefore

variable {p : List Char → Prop} {left right : List Char} {leftTokens rightTokens : List SqlToken}

/-- A piece that may stand in front of anything is put in front. -/
theorem andThen (hleft : ReadsBefore Anything left leftTokens)
    (hright : ReadsBefore p right rightTokens) :
    ReadsBefore p (left ++ right) (leftTokens ++ rightTokens) :=
  hleft.append (fun _ _ => trivial) hright

/-- A piece is put in front of one that stops it. -/
theorem stoppedBy (hleft : ReadsBefore Bounded left leftTokens) (hright : Bounded right)
    (hne : right ≠ []) (h : ReadsBefore p right rightTokens) :
    ReadsBefore p (left ++ right) (leftTokens ++ rightTokens) :=
  hleft.append (fun rest _ => bounded_append hne hright rest) h

/-- A piece is put in front of a space and what comes after it. -/
theorem spaceThen (hleft : ReadsBefore Bounded left leftTokens)
    (hright : ReadsBefore p right rightTokens) :
    ReadsBefore p (left ++ ([' '] ++ right)) (leftTokens ++ rightTokens) :=
  hleft.stoppedBy (bounded_cons (by decide) right) (List.cons_ne_nil ' ' right)
    (reads_space.andThen hright)

end ReadsBefore

/-- A text that stops what is in front of it, unless it is empty, and is read in front of what stops
it. -/
structure ReadsAsTail (text : List Char) (tokens : List SqlToken) : Prop where
  bounded : Bounded text
  reads : ReadsBefore Bounded text tokens

/-- A tail is put behind a text. -/
theorem ReadsBefore.withTail {left right : List Char} {leftTokens rightTokens : List SqlToken}
    (hleft : ReadsBefore Bounded left leftTokens) (hright : ReadsAsTail right rightTokens) :
    ReadsBefore Bounded (left ++ right) (leftTokens ++ rightTokens) := by
  refine hleft.append (fun rest hrest => ?_) hright.reads
  cases right with
  | nil => exact hrest
  | cons c tail => exact bounded_append (List.cons_ne_nil c tail) hright.bounded rest

/-- Two tails are a tail. -/
theorem ReadsAsTail.append {left right : List Char} {leftTokens rightTokens : List SqlToken}
    (hleft : ReadsAsTail left leftTokens) (hright : ReadsAsTail right rightTokens) :
    ReadsAsTail (left ++ right) (leftTokens ++ rightTokens) := by
  refine ⟨?_, hleft.reads.withTail hright⟩
  cases left with
  | nil => exact hright.bounded
  | cons c tail => exact bounded_append (List.cons_ne_nil c tail) hleft.bounded right

/-- Nothing is read as no tokens. -/
theorem reads_nil (p : List Char → Prop) : ReadsBefore p [] [] := by
  intro rest _
  simp

/-- A closing parenthesis stops what is in front of it. -/
theorem reads_closed {p : List Char → Prop} {text : List Char} {tokens : List SqlToken}
    (h : ReadsBefore Bounded text tokens) :
    ReadsBefore p (text ++ [')']) (tokens ++ [mark ")"]) := by
  refine h.stoppedBy (bounded_cons (by decide) []) (List.cons_ne_nil _ _) ?_
  exact (reads_mark (c := ')') (by decide)).imp fun _ _ => trivial

/-- An opening parenthesis. -/
theorem reads_open : ReadsBefore Anything ['('] [mark "("] := reads_mark (by decide)

/-- Words with a space behind each of them. -/
def spaced (words : List String) : List Char := words.flatMap fun word => word.toList ++ [' ']

/-- Keywords with spaces behind them are read as words. -/
theorem reads_spaced (words : List String) (h : ∀ word ∈ words, isKeyword word.toList = true) :
    ReadsBefore Anything (spaced words) (words.map word) := by
  induction words with
  | nil => exact reads_nil _
  | cons first rest ih =>
    have hfirst : ReadsBefore Anything (first.toList ++ [' ']) [word first] := by
      refine (reads_keyword first (h first List.mem_cons_self)).append ?_ reads_space
      intro rest _ c hc
      obtain rfl : ' ' = c := Option.some.inj hc
      decide
    exact hfirst.andThen (ih fun word hword => h word (List.mem_cons_of_mem first hword))

/-- A mark of comparison is read with the space behind it. -/
theorem reads_comparison {c : Char} {text : List Char} {symbol : String}
    (hspace : isSpace c = false)
    (h : ∀ rest, SqlToken.read? c (text ++ ' ' :: rest) = some (mark symbol, ' ' :: rest)) :
    ReadsBefore Anything (c :: text ++ [' ']) [mark symbol] := by
  have hmark : ReadsBefore (fun rest => ∃ tail, rest = ' ' :: tail) (c :: text) [mark symbol] := by
    refine ReadsBefore.token hspace ?_
    intro rest hrest
    obtain ⟨tail, rfl⟩ := hrest
    exact h tail
  exact hmark.append (fun rest _ => ⟨rest, rfl⟩) reads_space

/-- An operator is read with the space behind it. -/
theorem reads_operator (op : BinaryOp) :
    ReadsBefore Anything (op.symbol.toList ++ [' ']) (operator op) := by
  cases op with
  | and => exact reads_spaced ["AND"] (by decide)
  | or => exact reads_spaced ["OR"] (by decide)
  | equal => exact reads_comparison (by decide) fun _ => rfl
  | notEqual => exact reads_comparison (by decide) fun _ => rfl
  | is => exact reads_spaced ["IS"] (by decide)
  | isNot => exact reads_spaced ["IS", "NOT"] (by decide)
  | greaterThan => exact reads_comparison (by decide) fun _ => rfl
  | greaterThanOrEqual => exact reads_comparison (by decide) fun _ => rfl
  | lessThan => exact reads_comparison (by decide) fun _ => rfl
  | lessThanOrEqual => exact reads_comparison (by decide) fun _ => rfl

/-! ## Lists of items -/

/-- A text between items that stops the item in front of it and is read as one token. -/
structure Separates (separator : List Char) (token : SqlToken) : Prop where
  ne_nil : separator ≠ []
  bounded : Bounded separator
  reads : ReadsBefore Anything separator [token]

theorem separates_comma : Separates ",".toList comma where
  ne_nil := List.cons_ne_nil _ _
  bounded := bounded_cons (by decide) _
  reads := reads_mark (by decide)

theorem separates_commaSpace : Separates ", ".toList comma where
  ne_nil := List.cons_ne_nil _ _
  bounded := bounded_cons (by decide) _
  reads := separates_comma.reads.andThen reads_space

theorem separates_and : Separates " AND ".toList (word "AND") where
  ne_nil := List.cons_ne_nil _ _
  bounded := bounded_cons (by decide) _
  reads := reads_space.andThen (reads_spaced ["AND"] (by decide))

/-- A list of items is read item by item. -/
theorem reads_separated {α : Type} {separator : List Char} {token : SqlToken}
    (hseparator : Separates separator token) (text : α → List Char) (tokens : α → List SqlToken)
    {items : List α} (h : ∀ item ∈ items, ReadsBefore Bounded (text item) (tokens item)) :
    ReadsBefore Bounded (separator.intercalate (items.map text))
      (separated token (items.map tokens)) := by
  induction items with
  | nil => exact reads_nil _
  | cons first rest ih =>
    have hfirst := h first List.mem_cons_self
    have hrest := ih fun item hitem => h item (List.mem_cons_of_mem first hitem)
    cases rest with
    | nil => simpa [separated] using hfirst
    | cons second others =>
      have hboth : ReadsAsTail (separator ++ separator.intercalate ((second :: others).map text))
          (token :: separated token ((second :: others).map tokens)) :=
        ⟨bounded_append hseparator.ne_nil hseparator.bounded _, hseparator.reads.andThen hrest⟩
      have hall := hfirst.withTail hboth
      simpa [separated, List.intercalate_cons_cons] using hall

/-! ## Literals and columns -/

/-- What stops every token ends a number. -/
theorem ends_of_bounded {rest : List Char} (h : Bounded rest) : Numeral.Ends rest := by
  intro c hc
  obtain ⟨hdigit, hword, hpoint, -, -⟩ := bounded_spec h c hc
  refine ⟨hdigit, hpoint, ?_, ?_⟩
  · intro hc
    exact absurd hword (hc ▸ by decide)
  · intro hc
    exact absurd hword (hc ▸ by decide)

/-- A keyword that is stopped is read as a word. -/
theorem reads_word (letters : String) (h : isKeyword letters.toList = true) :
    ReadsBefore Bounded letters.toList [word letters] :=
  (reads_keyword letters h).imp fun _ hrest c hc => (bounded_spec hrest c hc).2.1

/-- A number that is stopped is read back. -/
theorem reads_numeral {numeral : Numeral} (hwhole : numeral.whole ≠ []) :
    ReadsBefore Bounded (numeral.text false) [number numeral] :=
  (reads_number numeral hwhole).imp fun _ => ends_of_bounded

/-- A text that is stopped is read back. -/
theorem reads_text (content : List Char) :
    ReadsBefore Bounded (Quoted.wrap '\'' content) [text (String.ofList content)] :=
  (reads_quotedText content).imp fun _ hrest hquote => (bounded_spec hrest _ hquote).2.2.2.2 rfl

/-- A name that is stopped is read back. -/
theorem reads_name (label : String) : ReadsBefore Bounded (quoteName label) [name label] :=
  (reads_quoteName label).imp fun _ hrest hquote => (bounded_spec hrest _ hquote).2.2.2.1 rfl

/-- An infinity is written as a number. -/
theorem text_infiniteNumeral (negative : Bool) :
    (Literal.infiniteNumeral negative).text false =
      if negative then "-9e999".toList else "9e999".toList := by
  revert negative
  decide +kernel

/-- A real is a number, or NULL if it is not one. -/
theorem reads_real (x : Binary64) :
    ReadsBefore Bounded (Literal.realText x) [(Literal.realConstant x).token] := by
  unfold Literal.realText Literal.realConstant
  split
  · exact reads_word "NULL" (by decide)
  · split
    · rw [← text_infiniteNumeral]
      exact reads_numeral (List.cons_ne_nil _ _)
    · obtain ⟨first, rest, hwhole, -⟩ := DecimalNotation.whole_numeral Literal.realNotation x
      exact reads_numeral (by simp [hwhole])

/-- A literal is one token. -/
theorem reads_literal (value : Literal) :
    ReadsBefore Bounded value.render [value.constant.token] := by
  cases value with
  | null => exact reads_word "NULL" (by decide)
  | integer number => exact reads_numeral (Digits.ofNat_ne_nil _)
  | real x => exact reads_real x
  | text content =>
    have hread := reads_text content.toList
    rwa [String.ofList_toList] at hread
  | date moment => exact reads_text moment.millisecondText
  | blob bytes => exact (reads_blob bytes).imp fun _ _ => trivial

/-- The name of a table and a point are read before anything that may follow a point. -/
theorem reads_qualified {p : List Char → Prop} (label : String) {text : List Char}
    {tokens : List SqlToken} (h : ReadsBefore p text tokens) :
    ReadsBefore p (quoteName label ++ '.' :: text) (name label :: mark "." :: tokens) := by
  have hpoint : ReadsBefore p ('.' :: text) (mark "." :: tokens) :=
    (reads_mark (c := '.') (by decide)).andThen h
  refine (reads_quoteName label).append (fun rest _ => ?_) hpoint
  rw [List.cons_append, List.head?_cons]
  decide

/-- A column is two names with a point between them. -/
theorem reads_column (c : Column) :
    ReadsBefore Bounded c.render [name c.table.name, mark ".", name c.name] :=
  reads_qualified c.table.name (reads_name c.name)

/-! ## Expressions and statements -/

/-- Two operands and the operator between them are read in order. -/
theorem reads_binary {op : BinaryOp} {left right : List Char}
    {leftTokens rightTokens : List SqlToken} (hleft : ReadsBefore Bounded left leftTokens)
    (hright : ReadsBefore Bounded right rightTokens) :
    ReadsBefore Bounded (binaryText op left right)
      (mark "(" :: (leftTokens ++ (operator op ++ (rightTokens ++ [mark ")"])))) := by
  have htext : binaryText op left right =
      ['('] ++ (left ++ ([' '] ++ ((op.symbol.toList ++ [' ']) ++ (right ++ [')'])))) := by
    simp [binaryText]
  have hoperator := (reads_operator op).andThen (reads_closed (p := Bounded) hright)
  rw [htext]
  exact reads_open.andThen (hleft.spaceThen hoperator)

/-- A prefix operator is read before its operand. -/
theorem reads_unary {op : UnaryOp} {operand : List Char} {tokens : List SqlToken}
    (h : ReadsBefore Bounded operand tokens) :
    ReadsBefore Bounded (unaryText op operand)
      (mark "(" :: word op.symbol :: (tokens ++ [mark ")"])) := by
  have htext : unaryText op operand = ['('] ++ (spaced [op.symbol] ++ (operand ++ [')'])) := by
    simp [unaryText, spaced]
  have hkeyword : ∀ word ∈ [op.symbol], isKeyword word.toList = true := by
    cases op
    decide
  rw [htext]
  exact reads_open.andThen ((reads_spaced _ hkeyword).andThen (reads_closed h))

/-- A list of items in parentheses is read item by item. -/
theorem reads_parenthesized {α : Type} (text : α → List Char) (tokens : α → List SqlToken)
    (items : List α) (h : ∀ item ∈ items, ReadsBefore Bounded (text item) (tokens item))
    {p : List Char → Prop} :
    ReadsBefore p ('(' :: (",".toList.intercalate (items.map text) ++ [')']))
      (parenthesized (items.map tokens)) := by
  have hitems := reads_separated separates_comma text tokens h
  exact reads_open.andThen (reads_closed hitems)

/-- A call is read as the function and its arguments. -/
theorem reads_call {function : FunctionName} {args : List Expr}
    (h : ∀ arg ∈ args, ReadsBefore Bounded arg.render arg.sqlTree.tokens) :
    ReadsBefore Bounded (Expr.call function args).render
      (Expr.call function args).sqlTree.tokens := by
  have hkeyword : isKeyword function.symbol.toList = true := by
    cases function <;> decide
  have htext : (Expr.call function args).render = function.symbol.toList ++
      ('(' :: (",".toList.intercalate (args.map Expr.render) ++ [')'])) := by
    simp [Expr.render_call, callText]
  have htokens : (Expr.call function args).sqlTree.tokens =
      [word function.symbol] ++ parenthesized (args.map fun arg => arg.sqlTree.tokens) := by
    simp [Expr.sqlTree_call, SqlExpr.tokens_call, Function.comp_def]
  rw [htext, htokens]
  exact (reads_word function.symbol hkeyword).stoppedBy (bounded_cons (by decide) _)
    (List.cons_ne_nil _ _) (reads_parenthesized Expr.render _ args h)

/-- A test against a list is read as the element and the values. -/
theorem reads_inList {element : Expr} {values : List Literal}
    (h : ReadsBefore Bounded element.render element.sqlTree.tokens) :
    ReadsBefore Bounded (Expr.inList element values).render
      (Expr.inList element values).sqlTree.tokens := by
  have htext : (Expr.inList element values).render = ['('] ++ (element.render ++ ([' '] ++
      (spaced ["IN"] ++ (('(' :: (",".toList.intercalate (values.map Literal.render) ++ [')'])) ++
        [')'])))) := by
    simp [Expr.render, inListText, spaced]
  have htokens : (Expr.inList element values).sqlTree.tokens =
      [mark "("] ++ (element.sqlTree.tokens ++ (["IN"].map word ++
        (parenthesized (values.map fun value => [value.constant.token]) ++ [mark ")"]))) := by
    simp [Expr.sqlTree, SqlExpr.tokens, Function.comp_def]
  have hvalues := reads_parenthesized (p := Bounded) Literal.render
    (fun value => [value.constant.token]) values fun value _ => reads_literal value
  rw [htext, htokens]
  exact reads_open.andThen
    (h.spaceThen ((reads_spaced ["IN"] (by decide)).andThen (reads_closed hvalues)))

/-- A test for a row is read as the statement inside it. -/
theorem reads_existsRow {query : Query}
    (h : ReadsBefore Bounded query.render query.sqlTree.tokens) :
    ReadsBefore Bounded (Expr.existsRow query).render (Expr.existsRow query).sqlTree.tokens := by
  have htext : (Expr.existsRow query).render =
      spaced ["EXISTS"] ++ (['('] ++ (query.render ++ [')'])) := by
    have hkeyword : "EXISTS (".toList = spaced ["EXISTS"] ++ ['('] := by decide
    rw [Expr.render]
    unfold existsText
    rw [hkeyword, List.append_assoc, List.append_assoc]
  have htokens : (Expr.existsRow query).sqlTree.tokens =
      ["EXISTS"].map word ++ ([mark "("] ++ (query.sqlTree.tokens ++ [mark ")"])) := by
    simp [Expr.sqlTree, SqlExpr.tokens]
  rw [htext, htokens]
  exact (reads_spaced ["EXISTS"] (by decide)).andThen (reads_open.andThen (reads_closed h))

/-- A clause is read as its keywords and its items, and it stops what is in front of it. -/
theorem reads_clause {α : Type} {keyword separator : String} {words : List String}
    {token : SqlToken} (hkeyword : keyword.toList = ' ' :: spaced words)
    (hwords : ∀ word ∈ words, isKeyword word.toList = true)
    (hseparator : Separates separator.toList token) (text : α → List Char)
    (tokens : α → List SqlToken) {items : List α} (h : ∀ item ∈ items, ReadsBefore Bounded (text item) (tokens item)) :
    ReadsAsTail (clause keyword separator (items.map text))
      (SqlToken.clause words token (items.map tokens)) := by
  unfold clause SqlToken.clause
  by_cases hnil : items = []
  · subst hnil
    exact ⟨fun _ hc => absurd hc (by simp), reads_nil _⟩
  · rw [if_neg (by simpa using hnil), if_neg (by simpa using hnil), hkeyword]
    refine ⟨bounded_cons (by decide) _, ?_⟩
    exact reads_space.andThen ((reads_spaced words hwords).andThen
      (reads_separated hseparator text tokens h))

/-- The text of a term, which may be missing. -/
def SortKey.termText : Option SortKey → List Char
  | none => []
  | some key => key.render

/-- A separated list of separated lists is one separated list, if none of them is empty. -/
theorem intercalate_flatMap {α β : Type} (separator : List α) {parts : β → List (List α)}
    (hparts : ∀ b, parts b ≠ []) (bs : List β) :
    separator.intercalate (bs.flatMap parts) =
      separator.intercalate (bs.map fun b => separator.intercalate (parts b)) := by
  have happend : ∀ {left right : List (List α)}, left ≠ [] → right ≠ [] →
      separator.intercalate (left ++ right) =
        separator.intercalate left ++ separator ++ separator.intercalate right := by
    intro left right hleft hright
    induction left with
    | nil => exact absurd rfl hleft
    | cons first rest ih =>
      cases rest with
      | nil =>
        obtain ⟨second, others, rfl⟩ := List.exists_cons_of_ne_nil hright
        simp [List.intercalate_cons_cons]
      | cons second others =>
        have hrest := ih (List.cons_ne_nil _ _)
        rw [List.cons_append] at hrest
        rw [List.cons_append, List.cons_append, List.intercalate_cons_cons, hrest,
          List.intercalate_cons_cons]
        simp only [List.append_assoc]
  induction bs with
  | nil => rfl
  | cons first rest ih =>
    cases rest with
    | nil => simp
    | cons second others =>
      have hne : (second :: others).flatMap parts ≠ [] := by
        simp [hparts second]
      rw [List.flatMap_cons, happend (hparts first) hne, ih]
      simp [List.intercalate_cons_cons]

/-- The ORDER BY clause lists the terms of the statement. -/
theorem clause_order (query : Query) :
    clause " ORDER BY " "," (query.order.map SortRule.render) =
      clause " ORDER BY " "," (query.terms.map SortKey.termText) := by
  have hrule : ∀ rule : SortRule,
      rule.render = ",".toList.intercalate (rule.terms.map SortKey.termText) := by
    intro rule
    obtain ⟨orderings⟩ := rule
    have hmap : SortKey.termText ∘ some = SortKey.render := rfl
    cases orderings with
    | nil => rfl
    | cons first rest =>
      simp [SortRule.render_eq, sortRuleText, SortRule.terms, hmap, SortKey.termText]
  have hterms : ",".toList.intercalate (query.terms.map SortKey.termText) =
      ",".toList.intercalate (query.order.map SortRule.render) := by
    have hne : ∀ rule : SortRule, rule.terms.map SortKey.termText ≠ [] := fun rule h =>
      rule.terms_ne_nil (List.map_eq_nil_iff.1 h)
    rw [Query.terms, List.map_flatMap, intercalate_flatMap _ hne, funext hrule]
  unfold clause
  rw [hterms]
  simp only [List.map_eq_nil_iff, Query.terms_eq_nil_iff]

/-- An item of a SELECT list is read if its expression is. -/
theorem reads_projection {result : Projection}
    (h : ∀ e ∈ result.expression?, ReadsBefore Bounded e.render e.sqlTree.tokens) :
    ReadsBefore Bounded result.render result.sqlTree.tokens := by
  cases result with
  | expr expression => exact h expression rfl
  | aliased expression label =>
    have htext : (Projection.aliased expression label).render =
        expression.render ++ ([' '] ++ (spaced ["AS"] ++ quoteName label)) := by
      simp [Projection.render, aliasedText, spaced]
    have htokens : (Projection.aliased expression label).sqlTree.tokens =
        expression.sqlTree.tokens ++ (["AS"].map word ++ [name label]) := by
      simp [Projection.sqlTree, SqlItem.tokens]
    rw [htext, htokens]
    exact (h expression rfl).spaceThen
      ((reads_spaced ["AS"] (by decide)).andThen (reads_name label))
  | wildcard table =>
    have hstar : ReadsBefore Bounded ['*'] [mark "*"] :=
      (reads_mark (by decide)).imp fun _ _ => trivial
    exact reads_qualified table.name hstar

/-- A term is read if the expression of its key is. -/
theorem reads_term {term : Option SortKey}
    (h : ∀ key ∈ term, ReadsBefore Bounded key.expression.render key.expression.sqlTree.tokens) :
    ReadsBefore Bounded (SortKey.termText term) (SortKey.sqlTerm term).tokens := by
  cases term with
  | none => exact reads_nil _
  | some key =>
    obtain ⟨expression, direction⟩ := key
    have hkeyword : isKeyword direction.symbol.toList = true := by
      cases direction <;> decide
    exact (h ⟨expression, direction⟩ rfl).spaceThen (reads_word direction.symbol hkeyword)

/-- The expression of a term is one of the statement. -/
theorem mem_expressions_of_mem_terms {query : Query} {term : Option SortKey} {key : SortKey}
    (hterm : term ∈ query.terms) (hkey : key ∈ term) : key.expression ∈ query.expressions := by
  rw [Option.mem_def.1 hkey] at hterm
  obtain ⟨rule, hrule, hsome⟩ := List.mem_flatMap.1 hterm
  have hmem : key ∈ rule.orderings := by
    unfold SortRule.terms at hsome
    split at hsome
    · exact absurd (List.mem_singleton.1 hsome) (Option.some_ne_none key)
    · simpa using hsome
  exact mem_expressions_of_mem_orderings hrule hmem

/-- The FROM clause lists the names of the tables. -/
theorem reads_fromClause (tables : TableSet) :
    ReadsAsTail tables.fromClause
      (SqlToken.clause ["FROM"] comma (tables.toList.map fun table => [name table.name])) :=
  reads_clause (by decide) (by decide) separates_commaSpace _ _ fun table _ => reads_name table.name

/-- The WHERE clause is read if the conditions are. -/
theorem reads_whereClause {predicates : List Expr}
    (h : ∀ e ∈ predicates, ReadsBefore Bounded e.render e.sqlTree.tokens) :
    ReadsAsTail (clause " WHERE " " AND " (predicates.map Expr.render))
      (SqlToken.clause ["WHERE"] (word "AND") (predicates.map fun e => e.sqlTree.tokens)) :=
  reads_clause (by decide) (by decide) separates_and _ _ h

/-- The ORDER BY clause is read if the expressions of its keys are. -/
theorem reads_orderClause {terms : List (Option SortKey)}
    (h : ∀ term ∈ terms, ∀ key ∈ term,
      ReadsBefore Bounded key.expression.render key.expression.sqlTree.tokens) :
    ReadsAsTail (clause " ORDER BY " "," (terms.map SortKey.termText))
      (SqlToken.clause ["ORDER", "BY"] comma
        (terms.map fun term => (SortKey.sqlTerm term).tokens)) := by
  apply reads_clause (by decide) (by decide) separates_comma
  intro term hterm
  exact reads_term (h term hterm)

/-- The tokens of a statement come from its parts. -/
theorem tokens_query (query : Query) :
    query.sqlTree.tokens =
      select (query.results.map fun result => result.sqlTree.tokens)
        (query.tables.toList.map fun table => [name table.name])
        (query.predicates.map fun predicate => predicate.sqlTree.tokens)
        (query.terms.map fun term => (SortKey.sqlTerm term).tokens) := by
  rw [Query.sqlTree_eq, SqlStatement.tokens_eq]
  simp only [List.map_map, Function.comp_def]

/-- A statement is read if its expressions are. -/
theorem reads_query {query : Query}
    (h : ∀ e ∈ query.expressions, ReadsBefore Bounded e.render e.sqlTree.tokens) :
    ReadsBefore Bounded query.render query.sqlTree.tokens := by
  have hitems : ReadsBefore Bounded (", ".toList.intercalate (query.results.map Projection.render))
      (separated comma (query.results.map fun result => result.sqlTree.tokens)) := by
    apply reads_separated separates_commaSpace
    intro result hresult
    exact reads_projection fun e he => h e (mem_expressions_of_mem_results hresult he)
  have hclauses := (reads_fromClause query.tables).append
    ((reads_whereClause fun e he => h e (mem_expressions_of_mem_predicates he)).append
      (reads_orderClause fun term hterm key hkey =>
        h key.expression (mem_expressions_of_mem_terms hterm hkey)))
  have hselect := (reads_spaced ["SELECT"] (by decide)).andThen (hitems.withTail hclauses)
  have hkeyword : "SELECT ".toList = spaced ["SELECT"] := by decide
  rw [Query.render_eq, tokens_query]
  unfold selectText
  rw [clause_order, hkeyword, List.append_assoc, List.append_assoc, List.append_assoc]
  exact hselect

/-- Expressions and statements are read as their trees. -/
theorem reads_trees :
    TreeInduction (fun e => ReadsBefore Bounded e.render e.sqlTree.tokens)
      (fun query => ReadsBefore Bounded query.render query.sqlTree.tokens) where
  binary hleft hright := by
    simpa only [Expr.render, Expr.sqlTree, SqlExpr.tokens] using reads_binary hleft hright
  unary hoperand := by
    simpa only [Expr.render, Expr.sqlTree, SqlExpr.tokens] using reads_unary hoperand
  column c := by simpa only [Expr.render, Expr.sqlTree, SqlExpr.tokens] using reads_column c
  literal value := by
    simpa only [Expr.render, Expr.sqlTree, SqlExpr.tokens] using reads_literal value
  call hargs := reads_call hargs
  inList helement := reads_inList helement
  join hcarrier := by simpa only [Expr.render, Expr.sqlTree] using hcarrier
  existsRow hquery := reads_existsRow hquery
  query hexpressions := reads_query hexpressions

/-- The text of an expression is split into the tokens of its tree. -/
theorem sqlTokens?_expr (e : Expr) : sqlTokens? (sql e).toList = some e.sqlTree.tokens := by
  rw [sql, String.toList_ofList]
  exact (reads_trees.expr e).sqlTokens?_eq fun _ hc => absurd hc (by simp)

/-- The text of a statement is split into the tokens of its tree. -/
theorem sqlTokens?_query (query : Query) :
    sqlTokens? (sql query).toList = some query.sqlTree.tokens := by
  rw [sql, String.toList_ofList]
  exact (reads_trees.statement query).sqlTokens?_eq fun _ hc => absurd hc (by simp)

end SqlSelect
