import SqlSelect.Proofs.Tree.Induction
import SqlSelect.Tree.HashFeed

/-!
# Equality and hashes of trees

Two trees are identical if they have the same nodes with the same payloads in the same places, reals
being compared by their bits. The equality test holds of identical trees only. What a tree feeds to a
hash tells it apart from every other tree, whatever is fed behind it: the number of a variant says
which parts follow, a list says how many items it has, and no text contains its end mark. So two trees
feed the same numbers exactly if they are equal. Nothing is said of what a hash makes of the numbers.
-/

namespace SqlSelect

/-! ## Identical trees -/

/-- Literals are identical if they are of the same variant and have the same payload; that of a real
is its bits. -/
inductive Literal.Identical : Literal → Literal → Prop
  | null : Literal.Identical .null .null
  | integer (number : Int64) : Literal.Identical (.integer number) (.integer number)
  | real {x y : Binary64} (hbits : x.bits = y.bits) : Literal.Identical (.real x) (.real y)
  | text (content : String) : Literal.Identical (.text content) (.text content)
  | date (moment : Timestamp) : Literal.Identical (.date moment) (.date moment)
  | blob (bytes : List UInt8) : Literal.Identical (.blob bytes) (.blob bytes)

mutual

/-- Expressions are identical if they are the same node for node. -/
inductive Expr.Identical : Expr → Expr → Prop
  | binary (op : BinaryOp) {left right left' right' : Expr} (hleft : left.Identical left')
      (hright : right.Identical right') :
      Expr.Identical (.binary op left right) (.binary op left' right')
  | unary (op : UnaryOp) {operand operand' : Expr} (hoperand : operand.Identical operand') :
      Expr.Identical (.unary op operand) (.unary op operand')
  | column (c : Column) : Expr.Identical (.column c) (.column c)
  | literal {value value' : Literal} (hvalue : value.Identical value') :
      Expr.Identical (.literal value) (.literal value')
  | call (function : FunctionName) {args args' : List Expr} (hlength : args.length = args'.length)
      (hargs : ∀ (i : Nat) (h : i < args.length) (h' : i < args'.length),
        Expr.Identical args[i] args'[i]) :
      Expr.Identical (.call function args) (.call function args')
  | inList {element element' : Expr} {values values' : List Literal}
      (helement : element.Identical element') (hlength : values.length = values'.length)
      (hvalues : ∀ (i : Nat) (h : i < values.length) (h' : i < values'.length),
        values[i].Identical values'[i]) :
      Expr.Identical (.inList element values) (.inList element' values')
  | join (left right : Column) {carrier carrier' : Expr} (hcarrier : carrier.Identical carrier') :
      Expr.Identical (.join left right carrier) (.join left right carrier')
  | existsRow {query query' : Query} (hquery : query.Identical query') :
      Expr.Identical (.existsRow query) (.existsRow query')

/-- Items of a SELECT list are identical if they are of the same kind, with the same alias or table,
and their expressions are identical. -/
inductive Projection.Identical : Projection → Projection → Prop
  | expr {expression expression' : Expr} (hexpression : expression.Identical expression') :
      Projection.Identical (.expr expression) (.expr expression')
  | aliased {expression expression' : Expr} (hexpression : expression.Identical expression')
      (label : String) :
      Projection.Identical (.aliased expression label) (.aliased expression' label)
  | wildcard (table : Table) : Projection.Identical (.wildcard table) (.wildcard table)

/-- Sort keys are identical if their directions are the same and their expressions identical. -/
inductive SortKey.Identical : SortKey → SortKey → Prop
  | intro {expression expression' : Expr} (hexpression : expression.Identical expression')
      (direction : Direction) : SortKey.Identical ⟨expression, direction⟩ ⟨expression', direction⟩

/-- Sort rules are identical if their keys are, one by one. -/
inductive SortRule.Identical : SortRule → SortRule → Prop
  | intro {orderings orderings' : List SortKey} (hlength : orderings.length = orderings'.length)
      (hkeys : ∀ (i : Nat) (h : i < orderings.length) (h' : i < orderings'.length),
        SortKey.Identical orderings[i] orderings'[i]) :
      SortRule.Identical ⟨orderings⟩ ⟨orderings'⟩

/-- Statements are identical if their items, conditions and sort rules are, one by one. -/
inductive Query.Identical : Query → Query → Prop
  | intro {results results' : List Projection} {predicates predicates' : List Expr}
      {order order' : List SortRule} (hresults : results.length = results'.length)
      (eachResult : ∀ (i : Nat) (h : i < results.length) (h' : i < results'.length),
        Projection.Identical results[i] results'[i])
      (hpredicates : predicates.length = predicates'.length)
      (eachPredicate : ∀ (i : Nat) (h : i < predicates.length) (h' : i < predicates'.length),
        Expr.Identical predicates[i] predicates'[i])
      (horder : order.length = order'.length)
      (eachRule : ∀ (i : Nat) (h : i < order.length) (h' : i < order'.length),
        SortRule.Identical order[i] order'[i]) :
      Query.Identical ⟨results, predicates, order⟩ ⟨results', predicates', order'⟩

end

theorem Literal.Identical.eq {left right : Literal} (h : left.Identical right) : left = right := by
  cases h with
  | @real x y hbits =>
    obtain ⟨bits⟩ := x
    obtain ⟨bits'⟩ := y
    obtain rfl : bits = bits' := hbits
    rfl
  | _ => rfl

theorem Literal.identical_self (value : Literal) : value.Identical value := by
  cases value with
  | null => exact .null
  | integer number => exact .integer number
  | real x => exact .real rfl
  | text content => exact .text content
  | date moment => exact .date moment
  | blob bytes => exact .blob bytes

mutual

/-- Identical expressions are equal. -/
theorem Expr.Identical.eq {left right : Expr} : left.Identical right → left = right
  | .binary op hleft hright => by rw [hleft.eq, hright.eq]
  | .unary op hoperand => by rw [hoperand.eq]
  | .column c => rfl
  | .literal hvalue => by rw [hvalue.eq]
  | .call function hlength hargs => by
    rw [List.ext_getElem hlength fun i h h' => (hargs i h h').eq]
  | .inList helement hlength hvalues => by
    rw [helement.eq, List.ext_getElem hlength fun i h h' => (hvalues i h h').eq]
  | .join left right hcarrier => by rw [hcarrier.eq]
  | .existsRow hquery => by rw [hquery.eq]

theorem Projection.Identical.eq {left right : Projection} : left.Identical right → left = right
  | .expr hexpression => by rw [hexpression.eq]
  | .aliased hexpression label => by rw [hexpression.eq]
  | .wildcard table => rfl

theorem SortKey.Identical.eq {left right : SortKey} : left.Identical right → left = right
  | .intro hexpression direction => by rw [hexpression.eq]

theorem SortRule.Identical.eq {left right : SortRule} : left.Identical right → left = right
  | .intro hlength hkeys => by rw [List.ext_getElem hlength fun i h h' => (hkeys i h h').eq]

/-- Identical statements are equal. -/
theorem Query.Identical.eq {left right : Query} : left.Identical right → left = right
  | .intro hresults eachResult hpredicates eachPredicate horder eachRule => by
    rw [List.ext_getElem hresults fun i h h' => (eachResult i h h').eq,
      List.ext_getElem hpredicates fun i h h' => (eachPredicate i h h').eq,
      List.ext_getElem horder fun i h h' => (eachRule i h h').eq]

end

/-- An item is identical to itself if its expression is. -/
theorem Projection.identical_self_of {result : Projection}
    (h : ∀ e ∈ result.expression?, e.Identical e) : result.Identical result := by
  cases result with
  | expr expression => exact .expr (h expression rfl)
  | aliased expression label => exact .aliased (h expression rfl) label
  | wildcard table => exact .wildcard table

/-- A sort rule is identical to itself if the expressions of its keys are. -/
theorem SortRule.identical_self_of {rule : SortRule}
    (h : ∀ key ∈ rule.orderings, key.expression.Identical key.expression) :
    rule.Identical rule := by
  obtain ⟨orderings⟩ := rule
  refine .intro rfl fun i hi _ => ?_
  have hexpression := h orderings[i] (List.getElem_mem hi)
  generalize orderings[i] = key at hexpression
  obtain ⟨expression, direction⟩ := key
  exact .intro hexpression direction

/-- Expressions and statements are identical to themselves. -/
theorem identical_trees :
    TreeInduction (fun e => e.Identical e) (fun query => query.Identical query) where
  binary hleft hright := .binary _ hleft hright
  unary hoperand := .unary _ hoperand
  column c := .column c
  literal value := .literal value.identical_self
  call hargs := .call _ rfl fun _ h _ => hargs _ (List.getElem_mem h)
  inList helement := .inList helement rfl fun _ _ _ => Literal.identical_self _
  join hcarrier := .join _ _ hcarrier
  existsRow hquery := .existsRow hquery
  query {query} hexpressions := by
    obtain ⟨results, predicates, order⟩ := query
    refine .intro rfl (fun i h _ => ?_) rfl (fun i h _ => ?_) rfl (fun i h _ => ?_)
    · exact Projection.identical_self_of fun e he =>
        hexpressions e (mem_expressions_of_mem_results (List.getElem_mem h) he)
    · exact hexpressions predicates[i] (mem_expressions_of_mem_predicates (List.getElem_mem h))
    · exact SortRule.identical_self_of fun key hkey =>
        hexpressions key.expression (mem_expressions_of_mem_orderings (List.getElem_mem h) hkey)

/-! ## What is fed can be read off -/

/-- A value can be read off what it feeds: no other value feeds the same numbers, whatever is fed
behind either of them. -/
def ReadOff {α : Type} (feed : α → List Nat) (a : α) : Prop :=
  ∀ (b : α) (rest other : List Nat), feed a ++ rest = feed b ++ other → a = b ∧ rest = other

section ReadOff

variable {α : Type} {feed : α → List Nat}

/-- What always feeds the same count of numbers, and different ones for different values, can be read
off. -/
theorem readOff_of_length (count : Nat) (hlength : ∀ a, (feed a).length = count)
    (hinj : ∀ a b, feed a = feed b → a = b) (a : α) : ReadOff feed a := by
  intro b rest other h
  obtain ⟨hfeed, hrest⟩ := List.append_inj h ((hlength a).trans (hlength b).symm)
  exact ⟨hinj a b hfeed, hrest⟩

/-- As many items as are known to follow can be read off one by one. -/
theorem readOff_flatten {items others : List α} (hitems : ∀ a ∈ items, ReadOff feed a)
    (hlength : items.length = others.length) {rest other : List Nat}
    (h : (items.map feed).flatten ++ rest = (others.map feed).flatten ++ other) :
    items = others ∧ rest = other := by
  induction items generalizing others with
  | nil =>
    obtain rfl := List.length_eq_zero_iff.1 hlength.symm
    exact ⟨rfl, h⟩
  | cons first items ih =>
    cases others with
    | nil => cases hlength
    | cons second others =>
      simp only [List.map_cons, List.flatten_cons, List.append_assoc] at h
      obtain ⟨hfirst, htail⟩ := hitems first List.mem_cons_self second _ _ h
      obtain ⟨hrest, hother⟩ := ih (fun a ha => hitems a (List.mem_cons_of_mem _ ha))
        (Nat.succ.inj hlength) htail
      exact ⟨by rw [hfirst, hrest], hother⟩

/-- A list can be read off if its items can, because it feeds their number first. -/
theorem readOff_list {items : List α} (hitems : ∀ a ∈ items, ReadOff feed a) :
    ReadOff (fun list => listFeed (list.map feed)) items := by
  intro others rest other h
  simp only [listFeed, List.cons_append, List.length_map, List.cons.injEq] at h
  exact readOff_flatten hitems h.1 h.2

end ReadOff

/-! ## Texts -/

/-- Lists that do not contain a mark end at its first place. -/
theorem eq_of_append_mark {left right rest other : List Nat} {mark : Nat} (hleft : mark ∉ left)
    (hright : mark ∉ right) (h : left ++ mark :: rest = right ++ mark :: other) :
    left = right ∧ rest = other := by
  induction left generalizing right with
  | nil =>
    cases right with
    | nil => exact ⟨rfl, (List.cons.inj h).2⟩
    | cons second right => exact absurd (List.cons.inj h).1 (List.ne_of_not_mem_cons hright)
  | cons first left ih =>
    cases right with
    | nil => exact absurd (List.cons.inj h).1.symm (List.ne_of_not_mem_cons hleft)
    | cons second right =>
      obtain ⟨rfl, htail⟩ := List.cons.inj h
      obtain ⟨rfl, hrest⟩ := ih (List.not_mem_of_not_mem_cons hleft)
        (List.not_mem_of_not_mem_cons hright) htail
      exact ⟨rfl, hrest⟩

/-- No byte of a character in UTF-8 begins with more than four ones. -/
theorem utf8EncodeChar_lt (c : Char) : ∀ byte ∈ String.utf8EncodeChar c, byte.toNat < 248 := by
  simp only [String.utf8EncodeChar]
  repeat' split
  all_goals
    simp only [List.forall_mem_cons, UInt8.toNat_ofNat', List.not_mem_nil, false_implies,
      implies_true, and_true]
    omega

/-- No text contains the mark that it ends with. -/
theorem endMark_not_mem (content : String) : 255 ∉ (nameBytes content).map UInt8.toNat := by
  intro h
  obtain ⟨byte, hbyte, hmark⟩ := List.mem_map.1 h
  rw [nameBytes, ← String.utf8Encode_toList, List.utf8Encode, List.toList_data_toByteArray,
    List.mem_flatMap] at hbyte
  obtain ⟨c, -, hc⟩ := hbyte
  have hlt := utf8EncodeChar_lt c byte hc
  omega

theorem readOff_text (content : String) : ReadOff textFeed content := by
  intro content' rest other h
  simp only [textFeed, List.append_assoc, List.singleton_append] at h
  obtain ⟨hbytes, hrest⟩ := eq_of_append_mark (endMark_not_mem content) (endMark_not_mem content') h
  exact ⟨nameBytes_inj.1 ((List.map_inj_right fun _ _ => UInt8.toNat_inj.1).1 hbytes), hrest⟩

/-! ## Names, words and literals -/

theorem readOff_table (table : Table) : ReadOff Table.feed table := by
  intro table' rest other h
  obtain ⟨hname, hrest⟩ := readOff_text _ _ _ _ h
  cases table
  cases table'
  exact ⟨congrArg Table.mk hname, hrest⟩

theorem readOff_column (c : Column) : ReadOff Column.feed c := by
  intro c' rest other h
  obtain ⟨table, label⟩ := c
  obtain ⟨table', label'⟩ := c'
  simp only [Column.feed, List.append_assoc] at h
  obtain ⟨rfl, htail⟩ := readOff_table table table' _ _ h
  obtain ⟨rfl, hrest⟩ := readOff_text label label' _ _ htail
  exact ⟨rfl, hrest⟩

theorem readOff_binaryOp (op : BinaryOp) : ReadOff BinaryOp.feed op := by
  refine readOff_of_length 1 (fun op => by cases op <;> rfl) (fun left right h => ?_) op
  revert h
  cases left <;> cases right <;> decide

theorem readOff_unaryOp (op : UnaryOp) : ReadOff UnaryOp.feed op := by
  refine readOff_of_length 1 (fun op => by cases op; rfl) (fun left right _ => ?_) op
  cases left
  cases right
  rfl

theorem readOff_function (function : FunctionName) : ReadOff FunctionName.feed function := by
  refine readOff_of_length 1 (fun function => by cases function <;> rfl) (fun left right h => ?_)
    function
  revert h
  cases left <;> cases right <;> decide

theorem readOff_direction (direction : Direction) : ReadOff Direction.feed direction := by
  refine readOff_of_length 1 (fun direction => by cases direction <;> rfl) (fun left right h => ?_)
    direction
  revert h
  cases left <;> cases right <;> decide

/-- Bytes feed their number and then one number each. -/
theorem readOff_bytes (bytes : List UInt8) :
    ReadOff (fun bytes => bytes.length :: bytes.map UInt8.toNat) bytes := by
  intro bytes' rest other h
  simp only [List.cons_append, List.cons.injEq] at h
  obtain ⟨hlength, hnumbers⟩ := h
  obtain ⟨hbytes, hrest⟩ := List.append_inj hnumbers (by simpa using hlength)
  exact ⟨(List.map_inj_right fun _ _ => UInt8.toNat_inj.1).1 hbytes, hrest⟩

/-- Years are counted from the first one, so none of them is cut off at zero. -/
theorem readOff_timestamp (moment : Timestamp) : ReadOff Timestamp.feed moment := by
  refine readOff_of_length 7 (fun _ => rfl) (fun left right h => ?_) moment
  have hleft := left.year_range
  have hright := right.year_range
  cases left
  cases right
  simp only [Timestamp.feed, List.cons.injEq, and_true] at h
  simp only [Timestamp.mk.injEq]
  omega

theorem readOff_literal (value : Literal) : ReadOff Literal.feed value := by
  intro value' rest other h
  cases value with
  | null =>
    cases value' with
    | null => exact ⟨rfl, (List.cons.inj h).2⟩
    | _ => cases h
  | integer number =>
    cases value' with
    | integer number' =>
      obtain ⟨word⟩ := number
      obtain ⟨word'⟩ := number'
      simp only [Literal.feed, List.cons_append, List.nil_append, List.cons.injEq, true_and] at h
      obtain rfl : word = word' := UInt64.toNat_inj.1 h.1
      exact ⟨rfl, h.2⟩
    | _ => cases h
  | real x =>
    cases value' with
    | real y =>
      obtain ⟨bits⟩ := x
      obtain ⟨bits'⟩ := y
      simp only [Literal.feed, List.cons_append, List.nil_append, List.cons.injEq, true_and] at h
      obtain rfl : bits = bits' := UInt64.toNat_inj.1 h.1
      exact ⟨rfl, h.2⟩
    | _ => cases h
  | text content =>
    cases value' with
    | text content' =>
      obtain ⟨rfl, hrest⟩ := readOff_text content content' rest other (List.cons.inj h).2
      exact ⟨rfl, hrest⟩
    | _ => cases h
  | date moment =>
    cases value' with
    | date moment' =>
      obtain ⟨rfl, hrest⟩ := readOff_timestamp moment moment' rest other (List.cons.inj h).2
      exact ⟨rfl, hrest⟩
    | _ => cases h
  | blob bytes =>
    cases value' with
    | blob bytes' =>
      obtain ⟨rfl, hrest⟩ := readOff_bytes bytes bytes' rest other (List.cons.inj h).2
      exact ⟨rfl, hrest⟩
    | _ => cases h

/-! ## Trees -/

/-- An item can be read off what it feeds if its expression can. -/
theorem Projection.readOff {result : Projection}
    (hexpression : ∀ e ∈ result.expression?, ReadOff Expr.feed e) :
    ReadOff Projection.feed result := by
  intro other rest after h
  cases result with
  | expr expression =>
    cases other with
    | expr expression' =>
      obtain ⟨rfl, hrest⟩ := hexpression expression rfl expression' rest after (List.cons.inj h).2
      exact ⟨rfl, hrest⟩
    | _ => cases h
  | aliased expression label =>
    cases other with
    | aliased expression' label' =>
      simp only [Projection.feed, List.cons_append, List.append_assoc, List.cons.injEq,
        true_and] at h
      obtain ⟨rfl, hlabel⟩ := hexpression expression rfl expression' _ _ h
      obtain ⟨rfl, hrest⟩ := readOff_text label label' rest after hlabel
      exact ⟨rfl, hrest⟩
    | _ => cases h
  | wildcard table =>
    cases other with
    | wildcard table' =>
      obtain ⟨rfl, hrest⟩ := readOff_table table table' rest after (List.cons.inj h).2
      exact ⟨rfl, hrest⟩
    | _ => cases h

/-- A sort key can be read off what it feeds if its expression can. -/
theorem SortKey.readOff {key : SortKey} (hexpression : ReadOff Expr.feed key.expression) :
    ReadOff SortKey.feed key := by
  intro other rest after h
  obtain ⟨expression, direction⟩ := key
  obtain ⟨expression', direction'⟩ := other
  simp only [SortKey.feed, List.append_assoc] at h
  obtain ⟨rfl, hdirection⟩ := hexpression expression' _ _ h
  obtain ⟨rfl, hrest⟩ := readOff_direction direction direction' rest after hdirection
  exact ⟨rfl, hrest⟩

/-- A sort rule can be read off what it feeds if the expressions of its keys can. -/
theorem SortRule.readOff {rule : SortRule}
    (hexpressions : ∀ key ∈ rule.orderings, ReadOff Expr.feed key.expression) :
    ReadOff SortRule.feed rule := by
  intro other rest after h
  obtain ⟨orderings⟩ := rule
  obtain ⟨orderings'⟩ := other
  rw [SortRule.feed_eq, SortRule.feed_eq] at h
  obtain ⟨rfl, hrest⟩ := readOff_list (fun key hkey => SortKey.readOff (hexpressions key hkey))
    orderings' rest after h
  exact ⟨rfl, hrest⟩

/-- A statement can be read off what it feeds if its expressions can. -/
theorem Query.readOff {query : Query} (hexpressions : ∀ e ∈ query.expressions, ReadOff Expr.feed e) :
    ReadOff Query.feed query := by
  have hitems : ∀ result ∈ query.results, ReadOff Projection.feed result := fun result hresult =>
    Projection.readOff fun e he => hexpressions e (mem_expressions_of_mem_results hresult he)
  have hconditions : ∀ e ∈ query.predicates, ReadOff Expr.feed e := fun e he =>
    hexpressions e (mem_expressions_of_mem_predicates he)
  have hrules : ∀ rule ∈ query.order, ReadOff SortRule.feed rule := fun rule hrule =>
    SortRule.readOff fun key hkey =>
      hexpressions key.expression (mem_expressions_of_mem_orderings hrule hkey)
  intro other rest after h
  obtain ⟨results, predicates, order⟩ := query
  obtain ⟨results', predicates', order'⟩ := other
  simp only [Query.feed_eq, List.append_assoc] at h
  obtain ⟨rfl, htail⟩ := readOff_list hitems results' _ _ h
  obtain ⟨rfl, hlast⟩ := readOff_list hconditions predicates' _ _ htail
  obtain ⟨rfl, hrest⟩ := readOff_list hrules order' rest after hlast
  exact ⟨rfl, hrest⟩

/-- Expressions and statements can be read off what they feed. -/
theorem readOff_trees : TreeInduction (ReadOff Expr.feed) (ReadOff Query.feed) where
  binary {op left right} hleft hright := by
    intro other rest after h
    cases other with
    | binary op' left' right' =>
      simp only [Expr.feed, List.cons_append, List.append_assoc, List.cons.injEq, true_and] at h
      obtain ⟨rfl, hoperands⟩ := readOff_binaryOp op op' _ _ h
      obtain ⟨rfl, hsecond⟩ := hleft left' _ _ hoperands
      obtain ⟨rfl, hrest⟩ := hright right' rest after hsecond
      exact ⟨rfl, hrest⟩
    | _ => cases h
  unary {op operand} hoperand := by
    intro other rest after h
    cases other with
    | unary op' operand' =>
      simp only [Expr.feed, List.cons_append, List.append_assoc, List.cons.injEq, true_and] at h
      obtain ⟨rfl, htail⟩ := readOff_unaryOp op op' _ _ h
      obtain ⟨rfl, hrest⟩ := hoperand operand' rest after htail
      exact ⟨rfl, hrest⟩
    | _ => cases h
  column c := by
    intro other rest after h
    cases other with
    | column c' =>
      obtain ⟨rfl, hrest⟩ := readOff_column c c' rest after (List.cons.inj h).2
      exact ⟨rfl, hrest⟩
    | _ => cases h
  literal value := by
    intro other rest after h
    cases other with
    | literal value' =>
      obtain ⟨rfl, hrest⟩ := readOff_literal value value' rest after (List.cons.inj h).2
      exact ⟨rfl, hrest⟩
    | _ => cases h
  call {function args} hargs := by
    intro other rest after h
    cases other with
    | call function' args' =>
      simp only [Expr.feed_call, List.cons_append, List.append_assoc, List.cons.injEq,
        true_and] at h
      obtain ⟨rfl, htail⟩ := readOff_function function function' _ _ h
      obtain ⟨rfl, hrest⟩ := readOff_list hargs args' rest after htail
      exact ⟨rfl, hrest⟩
    | _ => cases h
  inList {element values} helement := by
    intro other rest after h
    cases other with
    | inList element' values' =>
      simp only [Expr.feed, List.cons_append, List.append_assoc, List.cons.injEq, true_and] at h
      obtain ⟨rfl, htail⟩ := helement element' _ _ h
      obtain ⟨rfl, hrest⟩ := readOff_list (fun value _ => readOff_literal value) values' rest after
        htail
      exact ⟨rfl, hrest⟩
    | _ => cases h
  join {left right carrier} hcarrier := by
    intro other rest after h
    cases other with
    | join left' right' carrier' =>
      simp only [Expr.feed, List.cons_append, List.append_assoc, List.cons.injEq, true_and] at h
      obtain ⟨rfl, hsecond⟩ := readOff_column left left' _ _ h
      obtain ⟨rfl, htail⟩ := readOff_column right right' _ _ hsecond
      obtain ⟨rfl, hrest⟩ := hcarrier carrier' rest after htail
      exact ⟨rfl, hrest⟩
    | _ => cases h
  existsRow {query} hquery := by
    intro other rest after h
    cases other with
    | existsRow query' =>
      obtain ⟨rfl, hrest⟩ := hquery query' rest after (List.cons.inj h).2
      exact ⟨rfl, hrest⟩
    | _ => cases h
  query hexpressions := Query.readOff hexpressions

/-! ## Equality and what is fed -/

/-- The equality test of a type holds exactly of identical values and is an equivalence. It holds exactly
of the values that feed the same numbers; and where other numbers are fed behind two values, all
numbers together are the same only if the values are equal and so are the numbers behind them. -/
structure HashedAsCompared {α : Type} [BEq α] (identical : α → α → Prop) (feed : α → List Nat) :
    Prop where
  beq_iff_identical : ∀ a b : α, (a == b) = true ↔ identical a b
  beq_self : ∀ a : α, (a == a) = true
  beq_symm : ∀ a b : α, (a == b) = true → (b == a) = true
  beq_trans : ∀ a b c : α, (a == b) = true → (b == c) = true → (a == c) = true
  beq_iff_feed : ∀ a b : α, (a == b) = true ↔ feed a = feed b
  beq_of_append : ∀ (a b : α) (rest other : List Nat), feed a ++ rest = feed b ++ other →
    (a == b) = true ∧ rest = other

/-- What is needed is that identical values are equal, and that values can be read off what they feed. -/
theorem HashedAsCompared.of_readOff {α : Type} [BEq α] [LawfulBEq α] {identical : α → α → Prop}
    {feed : α → List Nat} (hself : ∀ a, identical a a) (heq : ∀ a b, identical a b → a = b)
    (hread : ∀ a, ReadOff feed a) : HashedAsCompared identical feed where
  beq_iff_identical a b := by
    rw [beq_iff_eq]
    constructor
    · rintro rfl
      exact hself a
    · exact heq a b
  beq_self a := beq_self_eq_true a
  beq_symm a b h := by
    rw [beq_iff_eq] at h ⊢
    exact h.symm
  beq_trans a b c hab hbc := by
    rw [beq_iff_eq] at hab hbc ⊢
    exact hab.trans hbc
  beq_iff_feed a b := by
    rw [beq_iff_eq]
    constructor
    · exact congrArg feed
    · intro h
      exact (hread a b [] [] (by rw [h])).1
  beq_of_append a b rest other h := by
    rw [beq_iff_eq]
    exact hread a b rest other h

/-- Literals, expressions, items of a SELECT list, sort rules and statements are equal exactly if they
are identical, and exactly if they feed the same numbers to a hash. -/
theorem equality_agrees_with_hashing :
    HashedAsCompared Literal.Identical Literal.feed ∧
      HashedAsCompared Expr.Identical Expr.feed ∧
        HashedAsCompared Projection.Identical Projection.feed ∧
          HashedAsCompared SortRule.Identical SortRule.feed ∧
            HashedAsCompared Query.Identical Query.feed := by
  refine ⟨?_, ?_, ?_, ?_, ?_⟩
  · exact .of_readOff Literal.identical_self (fun _ _ h => h.eq) readOff_literal
  · exact .of_readOff identical_trees.expr (fun _ _ h => h.eq) readOff_trees.expr
  · exact .of_readOff (fun _ => Projection.identical_self_of fun e _ => identical_trees.expr e)
      (fun _ _ h => h.eq) fun _ => Projection.readOff fun e _ => readOff_trees.expr e
  · exact .of_readOff (fun _ => SortRule.identical_self_of fun _ _ => identical_trees.expr _)
      (fun _ _ h => h.eq) fun _ => SortRule.readOff fun _ _ => readOff_trees.expr _
  · exact .of_readOff identical_trees.statement (fun _ _ h => h.eq) readOff_trees.statement

/-! NaNs of different bits are different literals. -/

example : (Literal.real ⟨0x7ff8000000000000⟩ == Literal.real ⟨0x7ff8000000000001⟩) = false := by
  decide

end SqlSelect
