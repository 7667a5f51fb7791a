import SqlSelect.Codec.Decode
import SqlSelect.Proofs.Json.Reading

/-!
# Trees that represent values

A tree represents a value of a kind if it has a text and is decoded as the value. Which trees do is
said here for every shape that a form can have: for lists, for records, and for the variants of a
choice without payload, with a value and with a record. Whoever knows the form of a kind needs no
more than this to see that the encoder and the decoder agree on it.

The same shapes say what becomes of faults. A tree may be decoded as its value only after a check; then
the checks of the parts are made one after the other in the order of the text, and the first one that
fails is what decoding the whole tree ends with.
-/

namespace SqlSelect

/-- The tree is decoded as the value if the check ends well, and ends with the fault of the check
otherwise. -/
def Yields (kind : Kind) (tree : Json) (check : Except DecodeError Unit) (value : kind.Carrier) : Prop :=
  decode kind tree = check.map fun _ => value

/-- The tree has a text and is decoded as the value. -/
structure Represents (kind : Kind) (tree : Json) (value : kind.Carrier) : Prop where
  writable : tree.Writable
  decoded : decode kind tree = .ok value

theorem Represents.yields {kind : Kind} {tree : Json} {value : kind.Carrier}
    (h : Represents kind tree value) : Yields kind tree (.ok ()) value := h.decoded

/-- One check after the other. -/
def andThen (first next : Except DecodeError Unit) : Except DecodeError Unit := first.bind fun _ => next

@[simp] theorem ok_andThen (next : Except DecodeError Unit) : andThen (.ok ()) next = next := rfl

@[simp] theorem andThen_ok (first : Except DecodeError Unit) : andThen first (.ok ()) = first := by
  cases first <;> rfl

/-- What is made of the results of two checks is made after both. -/
theorem map_bind_map {α β γ : Type} (first next : Except DecodeError Unit) (a : α) (b : β)
    (make : α → β → γ) :
    ((first.map fun _ => a).bind fun a => (next.map fun _ => b).map (make a)) =
      (andThen first next).map fun _ => make a b := by
  cases first with
  | error e => rfl
  | ok _ => cases next <;> rfl

/-- A record's members with their fields in order, the checks that they are decoded after, and the
values that they are decoded as. -/
inductive Fields.Yielded :
    (fields : Fields) → List (String × Json) → Except DecodeError Unit → fields.Values → Prop where
  | nil : Yielded [] [] (.ok ()) ()
  | cons {name : String} {kind : Kind} {fields : Fields} {tree : Json}
      {members : List (String × Json)} {check checks : Except DecodeError Unit} {value : kind.Carrier}
      {values : fields.Values} (hvalue : Yields kind tree check value)
      (hrest : Yielded fields members checks values) :
      Yielded ((name, kind) :: fields) ((name, tree) :: members) (andThen check checks) (value, values)

/-- A record's members with their fields in order, and the values that they represent. -/
inductive Fields.Represented :
    (fields : Fields) → List (String × Json) → fields.Values → Prop where
  | nil : Represented [] [] ()
  | cons {name : String} {kind : Kind} {fields : Fields} {tree : Json}
      {members : List (String × Json)} {value : kind.Carrier} {values : fields.Values}
      (hvalue : Represents kind tree value) (hrest : Represented fields members values) :
      Represented ((name, kind) :: fields) ((name, tree) :: members) (value, values)

namespace Fields

/-! ## Records -/

/-- The members go by the names of the fields. -/
theorem Yielded.names {fields : Fields} {members : List (String × Json)}
    {check : Except DecodeError Unit} {values : fields.Values}
    (h : Yielded fields members check values) : members.map Prod.fst = fields.map Prod.fst := by
  induction h with
  | nil => rfl
  | cons _ _ ih => rw [List.map_cons, List.map_cons, ih]

/-- Members that represent values are decoded after no check. -/
theorem Represented.yielded {fields : Fields} {members : List (String × Json)}
    {values : fields.Values} (h : Represented fields members values) :
    Yielded fields members (.ok ()) values := by
  induction h with
  | nil => exact .nil
  | cons hvalue _ ih => exact .cons hvalue.yields ih

/-- Every member has a text. -/
theorem Represented.writable {fields : Fields} {members : List (String × Json)}
    {values : fields.Values} (h : Represented fields members values) :
    ∀ m ∈ members, m.2.Writable := by
  induction h with
  | nil => exact fun m hm => absurd hm List.not_mem_nil
  | cons hvalue _ ih => exact List.forall_mem_cons.2 ⟨hvalue.writable, ih⟩

section

variable {name : String} {kind : Kind} {fields : Fields}

/-- The first member with the name of the first field gives its value. -/
theorem decodeMembers_first (slots : Slots fields) (tree : Json)
    (rest : List (Option String × Json)) :
    decodeMembers ((name, kind) :: fields) (none, slots) ((some name, tree) :: rest) =
      (decode kind tree).bind fun found =>
        decodeMembers ((name, kind) :: fields) (some found, slots) rest := by
  rw [decodeMembers, find?, if_pos rfl]
  rfl

/-- A second member with the name of the first field is an error. -/
theorem decodeMembers_again (known : kind.Carrier) (slots : Slots fields) (tree : Json)
    (rest : List (Option String × Json)) :
    decodeMembers ((name, kind) :: fields) (some known, slots) ((some name, tree) :: rest) =
      .error .mismatch := by
  rw [decodeMembers, find?, if_pos rfl]
  rfl

/-- A member with the name of a later field gives the value of that one. -/
theorem decodeMembers_later (slot : Option kind.Carrier) (slots : Slots fields) {key : String}
    (hkey : name ≠ key) {place : Place fields} (hplace : fields.find? key = some place) (tree : Json)
    (rest : List (Option String × Json)) :
    decodeMembers ((name, kind) :: fields) (slot, slots) ((some key, tree) :: rest) =
      if (slots.get? place).isSome then .error .mismatch
      else (decode place.kind tree).bind fun found =>
        decodeMembers ((name, kind) :: fields) (slot, slots.set place found) rest := by
  rw [decodeMembers, find?, if_neg hkey, hplace]
  rfl

/-- Once the first field has its value, members with other names go to the other fields. -/
theorem decodeMembers_filled (value : kind.Carrier) {members : List (Option String × Json)}
    (hnames : some name ∉ members.map Prod.fst) (slots : Slots fields) :
    decodeMembers ((name, kind) :: fields) (some value, slots) members =
      (decodeMembers fields slots members).map fun values => (value, values) := by
  induction members generalizing slots with
  | nil =>
    rw [decodeMembers, decodeMembers, Slots.finish, Slots.finish, Slots.values?]
    cases slots.values? <;> rfl
  | cons first rest ih =>
    obtain ⟨key, tree⟩ := first
    simp only [List.map_cons, List.mem_cons, not_or] at hnames
    obtain ⟨hkey, hrest⟩ := hnames
    cases key with
    | none => rw [decodeMembers, decodeMembers]; rfl
    | some key =>
      have hname : name ≠ key := fun h => hkey (congrArg some h)
      cases hplace : find? fields key with
      | none =>
        rw [decodeMembers, decodeMembers, find?, if_neg hname, hplace]
        simp only [Option.map_none]
        split
        · exact ih hrest slots
        · rfl
      | some place =>
        rw [decodeMembers_later _ _ hname hplace, decodeMembers, hplace]
        dsimp only
        split
        · rfl
        · cases decode place.kind tree with
          | error e => rfl
          | ok found => exact ih hrest (slots.set place found)

end

/-- Members with the fields in order are decoded as their values after their checks in order. -/
theorem Yielded.decoded {fields : Fields} {members : List (String × Json)}
    {check : Except DecodeError Unit} {values : fields.Values}
    (h : Yielded fields members check values) (hnames : (fields.map Prod.fst).Nodup) :
    decodeMembers fields fields.noSlots (members.map fun m => (some m.1, m.2)) =
      check.map fun _ => values := by
  induction h with
  | nil => rfl
  | @cons name kind fields tree members check checks value values hvalue hrest ih =>
    rw [List.map_cons, List.nodup_cons, ← hrest.names] at hnames
    have hothers : some name ∉ (members.map fun m => (some m.1, m.2)).map Prod.fst := by
      intro hmem
      rw [List.map_map] at hmem
      obtain ⟨m, hm, hname⟩ := List.mem_map.1 hmem
      exact hnames.1 (List.mem_map.2 ⟨m, hm, Option.some.inj hname⟩)
    rw [hrest.names] at hnames
    have hfilled (found : kind.Carrier) :
        decodeMembers ((name, kind) :: fields) (some found, fields.noSlots)
            (members.map fun m => (some m.1, m.2)) =
          (checks.map fun _ => values).map fun values => (found, values) := by
      rw [decodeMembers_filled found hothers, ih hnames.2]
    rw [List.map_cons, noSlots, decodeMembers_first, hvalue]
    simp only [hfilled]
    exact map_bind_map check checks value values Prod.mk

end Fields

/-! ## Names -/

/-- A variant that is found by its name is one of the variants. -/
theorem mem_of_lookup {α : Type} {variants : List (String × Payload α)} {name : String}
    {payload : Payload α} (h : variants.lookup name = some payload) : (name, payload) ∈ variants := by
  obtain ⟨before, after, rfl, -⟩ := List.lookup_eq_some_iff.1 h
  exact List.mem_append_right _ List.mem_cons_self

/-- The fields that come with a variant have different names. -/
def Payload.Distinct {α : Type} : Payload α → Prop
  | .record fields _ => (fields.map Prod.fst).Nodup
  | _ => True

/-- In every record of a form the fields have different names. -/
def Form.Distinct {α : Type} : Form α → Prop
  | .record fields _ => (fields.map Prod.fst).Nodup
  | .choice variants => ∀ variant ∈ variants, variant.2.Distinct
  | _ => True

/-- No form has two fields of one name in a record. -/
theorem distinct_form (kind : Kind) : kind.form.Distinct := by
  cases kind with
  | binaryOp => simp [Kind.form, Form.Distinct, Payload.Distinct, Kind.binaryOpVariants]
  | literal => simp [Kind.form, Form.Distinct, Payload.Distinct, Kind.literalVariants]
  | expr => simp [Kind.form, Form.Distinct, Payload.Distinct, Kind.exprVariants]
  | projection => simp [Kind.form, Form.Distinct, Payload.Distinct, Kind.projectionVariants]
  | _ => simp [Kind.form, Form.Distinct, Payload.Distinct]

/-- The fields of a record have different names. -/
theorem nodup_of_form {kind : Kind} {fields : Fields} {make : fields.Values → kind.Carrier}
    (hform : kind.form = .record fields make) : (fields.map Prod.fst).Nodup := by
  have hdistinct := distinct_form kind
  rwa [hform] at hdistinct

/-- The fields that come with a variant of a kind have different names. -/
theorem nodup_of_variant {kind : Kind} {variants : List (String × Payload kind.Carrier)}
    (hform : kind.form = .choice variants) {name : String} {fields : Fields}
    {make : fields.Values → kind.Carrier}
    (hvariant : variants.lookup name = some (.record fields make)) :
    (fields.map Prod.fst).Nodup := by
  have hdistinct := distinct_form kind
  rw [hform] at hdistinct
  exact hdistinct _ (mem_of_lookup hvariant)

/-! ## Records and variants -/

section

variable (kind : Kind)

/-- A record is made after the checks of its fields. -/
theorem yields_record {fields : Fields} {make : fields.Values → kind.Carrier}
    (hform : kind.form = .record fields make) {members : List (String × Json)}
    {check : Except DecodeError Unit} {values : fields.Values}
    (h : Fields.Yielded fields members check values) :
    Yields kind (.record members) check (make values) := by
  rw [Yields, Json.record, decode, hform]
  simp only [h.decoded (nodup_of_form hform)]
  cases check <;> rfl

/-- A record whose members represent its fields in order. -/
theorem represents_record {fields : Fields} {make : fields.Values → kind.Carrier}
    (hform : kind.form = .record fields make) {members : List (String × Json)} {values : fields.Values}
    (h : Fields.Represented fields members values) :
    Represents kind (.record members) (make values) :=
  ⟨.record h.writable, yields_record kind hform h.yielded⟩

/-- A variant without payload is its name. -/
theorem represents_unit {variants : List (String × Payload kind.Carrier)}
    (hform : kind.form = .choice variants) (name : String) {value : kind.Carrier}
    (hvariant : variants.lookup name = some (.unit value)) :
    Represents kind (.text name) value := by
  refine ⟨.text name, ?_⟩
  rw [Json.text, decode, hform]
  simp only [namedUnit, hvariant]

/-- A variant with one value is made after the check of the value. -/
theorem yields_single {variants : List (String × Payload kind.Carrier)}
    (hform : kind.form = .choice variants) (name : String) {inner : Kind}
    {make : inner.Carrier → kind.Carrier}
    (hvariant : variants.lookup name = some (.single inner make)) {tree : Json}
    {check : Except DecodeError Unit} {value : inner.Carrier} (h : Yields inner tree check value) :
    Yields kind (.tagged name tree) check (make value) := by
  rw [Yields] at h
  rw [Yields, Json.tagged, Json.record, List.map_singleton, decode, hform]
  simp only [hvariant, h]
  cases check <;> rfl

/-- A variant with one value is an object with its name as the one key. -/
theorem represents_single {variants : List (String × Payload kind.Carrier)}
    (hform : kind.form = .choice variants) (name : String) {inner : Kind}
    {make : inner.Carrier → kind.Carrier}
    (hvariant : variants.lookup name = some (.single inner make)) {tree : Json}
    {value : inner.Carrier} (h : Represents inner tree value) :
    Represents kind (.tagged name tree) (make value) :=
  ⟨.record (by simpa using h.writable), yields_single kind hform name hvariant h.yields⟩

/-- A variant with a record is made after the checks of the fields. -/
theorem yields_variant {variants : List (String × Payload kind.Carrier)}
    (hform : kind.form = .choice variants) (name : String) {fields : Fields}
    {make : fields.Values → kind.Carrier}
    (hvariant : variants.lookup name = some (.record fields make))
    {members : List (String × Json)} {check : Except DecodeError Unit} {values : fields.Values}
    (h : Fields.Yielded fields members check values) :
    Yields kind (.tagged name (.record members)) check (make values) := by
  rw [Yields, Json.tagged, Json.record, Json.record, List.map_singleton, decode, hform]
  simp only [hvariant, h.decoded (nodup_of_variant hform hvariant)]
  cases check <;> rfl

/-- A variant with a record is an object with its name as the one key. -/
theorem represents_variant {variants : List (String × Payload kind.Carrier)}
    (hform : kind.form = .choice variants) (name : String) {fields : Fields}
    {make : fields.Values → kind.Carrier}
    (hvariant : variants.lookup name = some (.record fields make))
    {members : List (String × Json)} {values : fields.Values} (h : Fields.Represented fields members values) :
    Represents kind (.tagged name (.record members)) (make values) :=
  ⟨.record (by simpa using Json.Writable.record h.writable),
    yields_variant kind hform name hvariant h.yielded⟩

end

/-! ## Lists -/

/-- The items of a list, the checks that they are decoded after, and the values that they are decoded
as. -/
inductive YieldsEach (item : Kind) : List Json → Except DecodeError Unit → List item.Carrier → Prop where
  | nil : YieldsEach item [] (.ok ()) []
  | cons {tree : Json} {trees : List Json} {check checks : Except DecodeError Unit}
      {value : item.Carrier} {values : List item.Carrier} (hvalue : Yields item tree check value)
      (hrest : YieldsEach item trees checks values) :
      YieldsEach item (tree :: trees) (andThen check checks) (value :: values)

/-- A list is made after the checks of its items in order. -/
theorem yields_list {item : Kind} {trees : List Json} {check : Except DecodeError Unit}
    {values : List item.Carrier} (h : YieldsEach item trees check values) :
    Yields (.list item) (.array trees) check values := by
  have hitems : decodeItems item trees = check.map fun _ => values := by
    induction h with
    | nil => rfl
    | cons hvalue _ ih =>
      rw [decodeItems, hvalue, ih]
      exact map_bind_map _ _ _ _ List.cons
  rw [Yields, decode]
  simp only [Kind.form, hitems]
  cases check <;> rfl

/-- A list of trees that represent values. -/
theorem represents_list {item : Kind} {α : Type} {values : List α} {tree : α → Json}
    {value : α → item.Carrier} (h : ∀ a ∈ values, Represents item (tree a) (value a)) :
    Represents (.list item) (.array (values.map tree)) (values.map value) := by
  constructor
  · refine .array fun t ht => ?_
    obtain ⟨a, ha, rfl⟩ := List.mem_map.1 ht
    exact (h a ha).writable
  · have heach : YieldsEach item (values.map tree) (.ok ()) (values.map value) := by
      induction values with
      | nil => exact .nil
      | cons first rest ih =>
        rw [List.forall_mem_cons] at h
        exact .cons h.1.yields (ih h.2)
    exact yields_list heach

end SqlSelect
