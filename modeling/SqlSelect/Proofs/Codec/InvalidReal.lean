import SqlSelect.Proofs.Codec.RoundTrip
import SqlSelect.Proofs.Json.RealPayload
import SqlSelect.Proofs.Tree.MapReals

/-!
# Strings that name no real

Strings are put in the place of some real literals of a value, in the text that the value is encoded as.
Decoding such a text visits the literals in the order of the text, so it comes to one check for each of
them, made one after the other. If every string names a real, the text is decoded as the value with
those reals; otherwise decoding ends with the first string that names none, wherever in the value it
stands.
-/

namespace SqlSelect

open Json (realKey)

/-- The names of the reals that are not finite. -/
def specialNames : List String := ["NaN", "inf", "-inf"]

/-- The real with one of these names. -/
def realNamed (name : String) : Binary64 :=
  if name = "NaN" then .quietNaN else if name = "inf" then .infinity else .negativeInfinity

/-- What is read in the place of a real literal: the real that the chosen string names, or else the
canonical form of the real itself. -/
def readReal (chosen : Nat → Option StringText) (place : Nat) (x : Binary64) : Binary64 :=
  match chosen place with
  | some spelled => realNamed spelled.content
  | none => x.canonical

/-- A value of a kind with other reals, which are counted from `start` on. -/
def Kind.mapReals (f : Nat → Binary64 → Binary64) :
    (kind : Kind) → Nat → kind.Carrier → kind.Carrier
  | .real, start, x => f start x
  | .literal, start, v => v.mapReals f start
  | .expr, start, v => v.mapReals f start
  | .projection, start, v => v.mapReals f start
  | .sortKey, start, v => v.mapReals f start
  | .sortRule, start, v => v.mapReals f start
  | .query, start, v => v.mapReals f start
  | .list item, start, vs => mapFrom (fun v => (item.reals v).length) (item.mapReals f) start vs
  -- No other kind holds reals.
  | .text, _, v => v
  | .integer, _, v => v
  | .byte, _, v => v
  | .timestamp, _, v => v
  | .binaryOp, _, v => v
  | .unaryOp, _, v => v
  | .function, _, v => v
  | .direction, _, v => v
  | .table, _, v => v
  | .column, _, v => v

/-- The kinds of trees, of their parts and of lists of these. The scalars are left out, for a real
that is no literal is not marked as one in JSON. -/
def Kind.isSyntax : Kind → Bool
  | .text | .integer | .byte | .real | .timestamp => false
  | .list item => item.isSyntax
  | _ => true

/-! ## Checks -/

/-- A chosen string must name a real. -/
def checkReal : Option StringText → Except DecodeError Unit
  | some spelled =>
    if spelled.content ∈ specialNames then .ok () else .error (.invalidReal spelled.content)
  | none => .ok ()

section

variable (chosen : Nat → Option StringText)

/-- The strings that are chosen for some literals in a row must name reals; the first one that names none
is the fault. -/
def checkReals (start : Nat) : Nat → Except DecodeError Unit
  | 0 => .ok ()
  | count + 1 => andThen (checkReal (chosen start)) (checkReals (start + 1) count)

variable {chosen}

theorem checkReals_add (start left right : Nat) :
    checkReals chosen start (left + right) =
      andThen (checkReals chosen start left) (checkReals chosen (start + left) right) := by
  induction left generalizing start with
  | zero => rw [Nat.zero_add]; rfl
  | succ left ih =>
    rw [Nat.succ_add, checkReals, checkReals, ih, Nat.add_assoc, Nat.add_comm 1]
    cases checkReal (chosen start) <;> rfl

theorem checkReals_one (start : Nat) : checkReals chosen start 1 = checkReal (chosen start) :=
  andThen_ok _

/-- The check ends well if every chosen string names a real. -/
theorem checkReals_eq_ok {start count : Nat}
    (h : ∀ place, start ≤ place → place < start + count →
      ∀ spelled ∈ chosen place, spelled.content ∈ specialNames) :
    checkReals chosen start count = .ok () := by
  induction count generalizing start with
  | zero => rfl
  | succ count ih =>
    have hfirst : checkReal (chosen start) = .ok () := by
      cases hchosen : chosen start with
      | none => rfl
      | some spelled => exact if_pos (h start le_rfl (by omega) spelled hchosen)
    rw [checkReals, hfirst, ok_andThen]
    exact ih fun place hfrom hto => h place (by omega) (by omega)

/-- The check ends with the first string that names no real. -/
theorem checkReals_eq_error {start place count : Nat} {spelled : StringText} (hfrom : start ≤ place)
    (hto : place < start + count) (hchosen : chosen place = some spelled)
    (hbad : spelled.content ∉ specialNames)
    (hfirst : ∀ earlier, start ≤ earlier → earlier < place →
      ∀ other ∈ chosen earlier, other.content ∈ specialNames) :
    checkReals chosen start count = .error (.invalidReal spelled.content) := by
  obtain ⟨before, rfl⟩ := Nat.exists_eq_add_of_le hfrom
  obtain ⟨after, rfl⟩ : ∃ after, count = before + (after + 1) := ⟨count - before - 1, by omega⟩
  have hbefore : checkReals chosen start before = .ok () := checkReals_eq_ok hfirst
  rw [checkReals_add, hbefore, ok_andThen, checkReals, hchosen, checkReal, if_neg hbad]
  rfl

/-! ## Trees with chosen strings -/

/-- A tree with a given number of real literals is decoded, after the checks of the strings that are
chosen for them, as a value that depends on where the count starts. -/
structure Fills (chosen : Nat → Option StringText) (kind : Kind) (tree : Json) (count : Nat)
    (value : Nat → kind.Carrier) : Prop where
  count_eq : tree.realCount = count
  yields : ∀ start, Yields kind (tree.replaceReals chosen start) (checkReals chosen start count)
    (value start)

/-- A tree without real literals is decoded as what it represents. -/
theorem Represents.fills {kind : Kind} {tree : Json} {value : kind.Carrier}
    (h : Represents kind tree value) (hcount : tree.realCount = 0) :
    Fills chosen kind tree 0 fun _ => value := by
  refine ⟨hcount, fun start => ?_⟩
  rw [Json.replaceReals_eq_self start tree hcount]
  exact h.yields

theorem Fills.of_count_eq {kind : Kind} {tree : Json} {count total : Nat}
    {value : Nat → kind.Carrier} (h : Fills chosen kind tree count value) (hcount : count = total) :
    Fills chosen kind tree total value := hcount ▸ h

/-- A record's members with their fields in order, how many literals they hold, and the values that they
are decoded as. -/
inductive Fields.Filled (chosen : Nat → Option StringText) :
    (fields : Fields) → List (String × Json) → Nat → (Nat → fields.Values) → Prop where
  | nil : Filled chosen [] [] 0 fun _ => ()
  | cons {name : String} {kind : Kind} {fields : Fields} {tree : Json}
      {members : List (String × Json)} {count total : Nat} {value : Nat → kind.Carrier}
      {values : Nat → fields.Values} (hname : name ≠ realKey)
      (hvalue : Fills chosen kind tree count value)
      (hrest : Filled chosen fields members total values) :
      Filled chosen ((name, kind) :: fields) ((name, tree) :: members) (count + total)
        fun start => (value start, values (start + count))

namespace Fields

theorem Filled.count_eq {fields : Fields} {members : List (String × Json)} {total : Nat}
    {values : Nat → fields.Values} (h : Filled chosen fields members total values) :
    (Json.record members).realCount = total := by
  rw [Json.record, Json.realCount]
  induction h with
  | nil => rfl
  | cons hname hvalue _ ih =>
    rw [List.map_cons, Json.realCountMembers, ih, if_neg (by simpa using hname), hvalue.count_eq]

/-- The members with the chosen strings are decoded after the checks of all of them. -/
theorem Filled.yielded {fields : Fields} {members : List (String × Json)} {total : Nat}
    {values : Nat → fields.Values} (h : Filled chosen fields members total values) (start : Nat) :
    ∃ replaced : List (String × Json),
      (Json.record members).replaceReals chosen start = .record replaced ∧
        Yielded fields replaced (checkReals chosen start total) (values start) := by
  simp only [Json.record, Json.replaceReals, Json.object.injEq]
  induction h generalizing start with
  | nil => exact ⟨[], rfl, .nil⟩
  | @cons name kind fields tree members count total value values hname hvalue _ ih =>
    obtain ⟨replaced, hreplaced, hyielded⟩ := ih (start + count)
    refine ⟨(name, tree.replaceReals chosen start) :: replaced, ?_, ?_⟩
    · rw [List.map_cons, Json.replaceRealsMembers, if_neg (by simpa using hname), hvalue.count_eq,
        hreplaced, List.map_cons]
    · rw [checkReals_add]
      exact .cons (hvalue.yields start) hyielded

end Fields

section

variable (kind : Kind)

/-- A record. -/
theorem fills_record {fields : Fields} {make : fields.Values → kind.Carrier}
    (hform : kind.form = .record fields make) {members : List (String × Json)} {total : Nat}
    {values : Nat → fields.Values} (h : Fields.Filled chosen fields members total values) :
    Fills chosen kind (.record members) total fun start => make (values start) := by
  refine ⟨h.count_eq, fun start => ?_⟩
  obtain ⟨replaced, hreplaced, hyielded⟩ := h.yielded start
  rw [hreplaced]
  exact yields_record kind hform hyielded

/-- A variant with one value. -/
theorem fills_single {variants : List (String × Payload kind.Carrier)}
    (hform : kind.form = .choice variants) (name : String) (hname : name ≠ realKey) {inner : Kind}
    {make : inner.Carrier → kind.Carrier}
    (hvariant : variants.lookup name = some (.single inner make)) {tree : Json} {count : Nat}
    {value : Nat → inner.Carrier} (h : Fills chosen inner tree count value) :
    Fills chosen kind (.tagged name tree) count fun start => make (value start) := by
  refine ⟨(Json.realCount_tagged hname tree).trans h.count_eq, fun start => ?_⟩
  rw [Json.replaceReals_tagged hname]
  exact yields_single kind hform name hvariant (h.yields start)

/-- A variant with a record. -/
theorem fills_variant {variants : List (String × Payload kind.Carrier)}
    (hform : kind.form = .choice variants) (name : String) (hname : name ≠ realKey) {fields : Fields}
    {make : fields.Values → kind.Carrier}
    (hvariant : variants.lookup name = some (.record fields make)) {members : List (String × Json)}
    {total : Nat} {values : Nat → fields.Values}
    (h : Fields.Filled chosen fields members total values) :
    Fills chosen kind (.tagged name (.record members)) total fun start => make (values start) := by
  refine ⟨(Json.realCount_tagged hname _).trans h.count_eq, fun start => ?_⟩
  obtain ⟨replaced, hreplaced, hyielded⟩ := h.yielded start
  rw [Json.replaceReals_tagged hname, hreplaced]
  exact yields_variant kind hform name hvariant hyielded

end

/-- A list of trees. -/
theorem fills_list {item : Kind} {α : Type} {values : List α} {tree : α → Json} {size : α → Nat}
    {value : Nat → α → item.Carrier}
    (h : ∀ a ∈ values, Fills chosen item (tree a) (size a) fun start => value start a) :
    Fills chosen (.list item) (.array (values.map tree)) (values.map size).sum
      fun start => mapFrom size value start values := by
  constructor
  · rw [Json.realCount]
    induction values with
    | nil => rfl
    | cons first rest ih =>
      rw [List.forall_mem_cons] at h
      rw [List.map_cons, Json.realCountEach, h.1.count_eq, ih h.2]
      rfl
  · intro start
    rw [Json.replaceReals]
    refine yields_list ?_
    induction values generalizing start with
    | nil => exact .nil
    | cons first rest ih =>
      rw [List.forall_mem_cons] at h
      rw [List.map_cons, Json.replaceRealsEach, h.1.count_eq, List.map_cons, List.sum_cons,
        checkReals_add]
      exact .cons (h.1.yields start) (ih h.2 (start + size first))

/-! ## Every value -/

/-- What stands in the place of a real is read as the real that it names, or as the canonical real. -/
theorem yields_payload (start : Nat) (x : Binary64) :
    Yields .real (Json.payload chosen start x.encode) (checkReal (chosen start))
      (readReal chosen start x) := by
  unfold Json.payload readReal
  cases chosen start with
  | none => exact (represents_real x).yields
  | some spelled =>
    dsimp only
    rw [Yields, Json.text, decode]
    simp only [Kind.form, Scalar.real, Scalar.namedReal, checkReal, specialNames, realNamed,
      List.mem_cons, List.not_mem_nil, or_false]
    split
    · next hnan => rw [if_pos (.inl hnan)]; rfl
    split
    · next hinf => rw [if_pos (.inr (.inl hinf))]; rfl
    split
    · next hneg => rw [if_pos (.inr (.inr hneg))]; rfl
    · next hnan hinf hneg => rw [if_neg (by simp [hnan, hinf, hneg])]; rfl

theorem fills_table (table : Table) : Fills chosen .table table.encode 0 fun _ => table :=
  (represents_table table).fills rfl

theorem fills_column (column : Column) : Fills chosen .column column.encode 0 fun _ => column :=
  (represents_column column).fills rfl

theorem fills_text (content : String) : Fills chosen .text (.text content) 0 fun _ => content :=
  (represents_text content).fills rfl

theorem fills_literal (value : Literal) :
    Fills chosen .literal value.encode value.reals.length
      fun start => value.mapReals (readReal chosen) start := by
  cases value with
  | real x =>
    refine ⟨rfl, fun start => ?_⟩
    have htree : (Literal.real x).encode = .tagged realKey x.encode := rfl
    rw [htree, Json.replaceReals_real, Literal.reals, List.length_singleton, checkReals_one]
    exact yields_single .literal rfl "Real" rfl (yields_payload start x)
  | blob bytes =>
    refine (represents_literal (.blob bytes)).fills ?_
    rw [Literal.encode, Json.realCount_tagged (by decide), Json.realCount]
    induction bytes with
    | nil => rfl
    | cons first rest ih => rw [List.map_cons, Json.realCountEach, ih]; rfl
  | null => exact (represents_literal .null).fills rfl
  | integer number => exact (represents_literal (.integer number)).fills rfl
  | text content => exact (represents_literal (.text content)).fills rfl
  | date moment => exact (represents_literal (.date moment)).fills rfl

/-- An item of a SELECT list with the reals of its expression. -/
theorem fills_projection {result : Projection}
    (h : ∀ e ∈ result.expression?,
      Fills chosen .expr e.encode e.reals.length fun start => e.mapReals (readReal chosen) start) :
    Fills chosen .projection result.encode result.reals.length
      fun start => result.mapReals (readReal chosen) start := by
  cases result with
  | expr expression =>
    exact fills_single .projection rfl "Expression" (by decide) rfl (h expression rfl)
  | aliased expression label =>
    exact fills_variant .projection rfl "Aliased" (by decide) rfl
      (.cons (by decide) (h expression rfl) (.cons (by decide) (fills_text label) .nil))
  | wildcard table =>
    exact fills_single .projection rfl "Wildcard" (by decide) rfl (fills_table table)

/-- A sort key with the reals of its expression. -/
theorem fills_sortKey {key : SortKey}
    (h : Fills chosen .expr key.expression.encode key.expression.reals.length
      fun start => key.expression.mapReals (readReal chosen) start) :
    Fills chosen .sortKey key.encode key.reals.length
      fun start => key.mapReals (readReal chosen) start := by
  obtain ⟨expression, direction⟩ := key
  have hdirection : direction.encode.realCount = 0 := by cases direction <;> rfl
  exact fills_record .sortKey rfl
    (.cons (by decide) h
      (.cons (by decide) ((represents_direction direction).fills hdirection) .nil))

/-- A sort rule with the reals of its keys. -/
theorem fills_sortRule {rule : SortRule}
    (h : ∀ key ∈ rule.orderings,
      Fills chosen .expr key.expression.encode key.expression.reals.length
        fun start => key.expression.mapReals (readReal chosen) start) :
    Fills chosen .sortRule rule.encode rule.reals.length
      fun start => rule.mapReals (readReal chosen) start := by
  have horderings := fills_list fun key hkey => fills_sortKey (h key hkey)
  simp only [SortRule.encode_eq, SortRule.reals_eq, SortRule.mapReals_eq, List.length_flatMap]
  exact fills_record .sortRule rfl (.cons (by decide) horderings .nil)

/-- The steps by which the trees of expressions and statements are decoded with the chosen strings. -/
theorem fills_steps :
    TreeInduction
      (fun e => Fills chosen .expr e.encode e.reals.length
        fun start => e.mapReals (readReal chosen) start)
      (fun query => Fills chosen .query query.encode query.reals.length
        fun start => query.mapReals (readReal chosen) start) where
  binary {op left right} hleft hright := by
    have hop : op.encode.realCount = 0 := by cases op <;> rfl
    have hfills := fills_variant .expr rfl "Binary" (by decide) rfl
      (.cons (by decide) ((represents_binaryOp op).fills hop)
        (.cons (by decide) hleft (.cons (by decide) hright .nil)))
    exact hfills.of_count_eq (by simp [Expr.reals])
  unary {op operand} hoperand := by
    have hop : op.encode.realCount = 0 := by cases op; rfl
    have hfills := fills_variant .expr rfl "Unary" (by decide) rfl
      (.cons (by decide) ((represents_unaryOp op).fills hop) (.cons (by decide) hoperand .nil))
    exact hfills.of_count_eq (by simp [Expr.reals])
  column c := fills_single .expr rfl "Column" (by decide) rfl (fills_column c)
  literal value := fills_single .expr rfl "Value" (by decide) rfl (fills_literal value)
  call {function args} hargs := by
    have hfunction : function.encode.realCount = 0 := by cases function <;> rfl
    have hfills := fills_variant .expr rfl "Function" (by decide) rfl
      (.cons (by decide) ((represents_function function).fills hfunction)
        (.cons (by decide) (fills_list hargs) .nil))
    simp only [Expr.encode_call, Expr.mapReals_call]
    exact hfills.of_count_eq (by simp [Expr.reals_call])
  inList {element values} helement := by
    have hvalues : Fills chosen (.list .literal) (.array (values.map Literal.encode)) _
        fun start => mapFrom _ (Literal.mapReals (readReal chosen)) start values :=
      fills_list fun value _ => fills_literal value
    have hfills := fills_variant .expr rfl "InList" (by decide) rfl
      (.cons (by decide) helement (.cons (by decide) hvalues .nil))
    exact hfills.of_count_eq (by simp [Expr.reals])
  join {left right carrier} hcarrier := by
    have hfills := fills_variant .expr rfl "Join" (by decide) rfl
      (.cons (by decide) (fills_column left)
        (.cons (by decide) (fills_column right) (.cons (by decide) hcarrier .nil)))
    exact hfills.of_count_eq (by simp [Expr.reals])
  existsRow {query} hquery := fills_single .expr rfl "Exists" (by decide) rfl hquery
  query {query} h := by
    have hresults := fills_list fun result hresult => fills_projection fun e he =>
      h e (mem_expressions_of_mem_results hresult he)
    have hpredicates := fills_list fun e he => h e (mem_expressions_of_mem_predicates he)
    have horder := fills_list fun rule hrule => fills_sortRule fun key hkey =>
      h key.expression (mem_expressions_of_mem_orderings hrule hkey)
    have hfills := fills_record .query rfl
      (.cons (by decide) hresults
        (.cons (by decide) hpredicates (.cons (by decide) horder .nil)))
    simp only [Query.encode_eq, Query.mapReals_eq, List.length_flatMap]
    exact hfills.of_count_eq (by simp [Query.reals_eq])

/-- The tree of every value but a bare real is decoded with the chosen strings. -/
theorem fills_encode (kind : Kind) (hkind : kind.isSyntax) (value : kind.Carrier) :
    Fills chosen kind (encode kind value) (kind.reals value).length
      fun start => kind.mapReals (readReal chosen) start value := by
  have hexpr (e : Expr) : Fills chosen .expr e.encode e.reals.length
      fun start => e.mapReals (readReal chosen) start := fills_steps.expr e
  induction kind with
  | text | integer | byte | real | timestamp => cases hkind
  | binaryOp => exact (represents_binaryOp value).fills (by cases value <;> rfl)
  | unaryOp => exact (represents_unaryOp value).fills (by cases value; rfl)
  | function => exact (represents_function value).fills (by cases value <;> rfl)
  | direction => exact (represents_direction value).fills (by cases value <;> rfl)
  | table => exact fills_table value
  | column => exact fills_column value
  | literal => exact fills_literal value
  | expr => exact hexpr value
  | projection => exact fills_projection fun e _ => hexpr e
  | sortKey => exact fills_sortKey (hexpr value.expression)
  | sortRule => exact fills_sortRule fun key _ => hexpr key.expression
  | query => exact fills_steps.statement value
  | list item ih =>
    have hlist := fills_list fun v (_ : v ∈ value) => ih hkind v
    exact hlist.of_count_eq (by simp [Kind.reals, List.length_flatMap])

/-- A text with chosen strings is decoded after the checks of all of them. -/
theorem decodeText_renderReplaced (kind : Kind) (hkind : kind.isSyntax) (value : kind.Carrier) :
    decodeText kind ((encode kind value).renderReplaced chosen 0) =
      (checkReals chosen 0 (kind.reals value).length).map fun _ =>
        kind.mapReals (readReal chosen) 0 value := by
  have hread : Json.read ((encode kind value).renderReplaced chosen 0) =
      ((encode kind value).replaceReals chosen 0, true) :=
    Json.read_of_readsAs (Json.readsAs_renderReplaced (represents_encode kind value).writable 0)
  have hyields : decode kind ((encode kind value).replaceReals chosen 0) = _ :=
    (fills_encode kind hkind value).yields 0
  simp only [decodeText, hread, hyields]
  cases checkReals chosen 0 (kind.reals value).length <;> rfl

end

/-! ## What decoding ends with -/

/-- Let strings, spelled in any way, be chosen for some of the real literals of a value, and put in the
place of their payloads in the text that the value is encoded as, which is kept where none is chosen. If
every chosen string is NaN, inf or -inf, the text is decoded as the value with those reals in the place
of the chosen ones, and every other real canonical. Otherwise decoding ends with the first chosen string,
in the order of the text, that is none of the three, and says so. -/
theorem first_invalid_real_is_reported (kind : Kind) (hkind : kind.isSyntax) (value : kind.Carrier)
    (chosen : Nat → Option StringText) :
    (encode kind value).renderReplaced (fun _ => none) 0 = encodeText kind value ∧
      ((∀ place < (kind.reals value).length, ∀ spelled ∈ chosen place,
          spelled.content ∈ ["NaN", "inf", "-inf"]) →
        decodeText kind ((encode kind value).renderReplaced chosen 0) =
          .ok (kind.mapReals (fun place x =>
            match chosen place with
            | some spelled => realNamed spelled.content
            | none => x.canonical) 0 value)) ∧
      ∀ place < (kind.reals value).length, ∀ spelled ∈ chosen place,
        spelled.content ∉ ["NaN", "inf", "-inf"] →
        (∀ earlier < place, ∀ other ∈ chosen earlier, other.content ∈ ["NaN", "inf", "-inf"]) →
        ∃ error, decodeText kind ((encode kind value).renderReplaced chosen 0) = .error error ∧
          error = .invalidReal spelled.content ∧
          error.message? = some ("invalid real: '" ++ spelled.content ++ "'") := by
  refine ⟨Json.renderReplaced_none 0 (encode kind value), ?_, ?_⟩
  · intro hnamed
    rw [decodeText_renderReplaced kind hkind,
      checkReals_eq_ok fun place _ hplace => hnamed place (by omega)]
    rfl
  · intro place hplace spelled hspelled hinvalid hearlier
    refine ⟨.invalidReal spelled.content, ?_, rfl, rfl⟩
    rw [decodeText_renderReplaced kind hkind,
      checkReals_eq_error (Nat.zero_le place) (by omega) hspelled hinvalid
        fun earlier _ hless => hearlier earlier hless]
    rfl

/-- The text of an object with one key. -/
def taggedText (tag : String) (value : List Char) : List Char :=
  Json.objectText [Json.memberText (some tag) value]

/-- The text of a subquery that selects one real and tests another one against two more, from the texts
of their payloads. -/
def subqueryText (selected tested first second : String) : List Char :=
  let real (payload : String) := taggedText "Real" payload.toList
  let value (payload : String) := taggedText "Value" (real payload)
  taggedText "Exists" (Json.objectText
    [Json.memberText (some "results") (Json.arrayText [taggedText "Expression" (value selected)]),
      Json.memberText (some "predicates") (Json.arrayText [taggedText "InList" (Json.objectText
        [Json.memberText (some "expr") (value tested),
          Json.memberText (some "values") (Json.arrayText [real first, real second])])]),
      Json.memberText (some "order") (Json.arrayText [])])

/-- In a subquery with four reals, the second and the fourth as the strings NaN, with an escape, and
-inf; and the third and the fourth as strings that name no real, of which the first is reported. -/
theorem invalid_real_in_subquery :
    Kind.isSyntax .expr ∧
      decodeText .expr (subqueryText "\"NaN\"" "\"\\u004eaN\"" "\"inf\"" "\"-inf\"") =
        .ok (.existsRow ⟨[.expr (.literal (.real .quietNaN))],
          [.inList (.literal (.real .quietNaN)) [.real .infinity, .real .negativeInfinity]], []⟩) ∧
      ∃ error,
        decodeText .expr (subqueryText "\"NaN\"" "\"inf\"" "\"nan\"" "\" inf\"") = .error error ∧
        error.message? = some "invalid real: 'nan'" := by
  have hnamed := (first_invalid_real_is_reported .expr rfl
    (.existsRow ⟨[.expr (.literal (.real ⟨0x7ff8000000000001⟩))],
      [.inList (.literal (.real .infinity)) [.real .infinity, .real .infinity]], []⟩)
    fun place =>
      if place = 1 then some ⟨"NaN", "\\u004eaN\"".toList, by decide +kernel⟩
      else if place = 3 then some (.written "-inf") else none).2.1
  have hinvalid := (first_invalid_real_is_reported .expr rfl
    (.existsRow ⟨[.expr (.literal (.real ⟨0x7ff8000000000001⟩))],
      [.inList (.literal (.real .infinity)) [.real .infinity, .real .infinity]], []⟩)
    fun place =>
      if place = 2 then some (.written "nan")
      else if place = 3 then some (.written " inf") else none).2.2
  refine ⟨rfl, ?_, ?_⟩
  · exact (congrArg (decodeText .expr) (by decide +kernel)).trans (hnamed (by decide +kernel))
  · obtain ⟨error, herror, -, hmessage⟩ :=
      hinvalid 2 (by decide) (.written "nan") rfl (by decide) (by decide +kernel)
    exact ⟨error, (congrArg (decodeText .expr) (by decide +kernel)).trans herror, hmessage⟩

end SqlSelect
