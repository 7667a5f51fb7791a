import SqlSelect.Proofs.Codec.Decode
import SqlSelect.Proofs.Codec.Spelling

/-!
# One step of decoding

What a well-formed tree is decoded as, said by the shape of the tree for every shape that a form can
have. An object is decoded as a record just if it holds every field once: the induction runs over the
members, and for one field at a time, because what the decoder does with the other fields does not
depend on that one. A variant is found by its name, of which no form has two.
-/

namespace SqlSelect

/-! ## Well-formed trees -/

namespace Json

theorem areIntact_eq_all (items : List Json) : areIntact items = items.all isIntact := by
  induction items with
  | nil => rfl
  | cons first rest ih => rw [areIntact, List.all_cons, ih]

theorem membersAreIntact_eq_all (members : List (Option String × Json)) :
    membersAreIntact members = members.all fun m => m.2.isIntact := by
  induction members with
  | nil => rfl
  | cons first rest ih => rw [membersAreIntact, List.all_cons, ih]

/-- A well-formed tree has no cut. -/
theorem WellFormed.isIntact {tree : Json} (h : tree.WellFormed) : tree.isIntact = true := by
  induction h with
  | null => rfl
  | bool => rfl
  | number => rfl
  | string => rfl
  | array _ ih => rw [Json.isIntact, areIntact_eq_all, List.all_eq_true]; exact ih
  | object _ _ ih => rw [Json.isIntact, membersAreIntact_eq_all, List.all_eq_true]; exact ih

/-- The members of an object that may go unread: every key has a content, and no value has a cut. -/
def Clean (members : List (Option String × Json)) : Prop :=
  ∀ m ∈ members, m.1 ≠ none ∧ m.2.isIntact = true

theorem WellFormed.clean {members : List (Option String × Json)} (h : (Json.object members).WellFormed) :
    Clean members := fun m hm =>
  (wellFormed_object_iff.1 h m hm).imp_right WellFormed.isIntact

/-- What an object holds under a key is well-formed. -/
theorem WellFormed.held {members : List (Option String × Json)} (h : (Json.object members).WellFormed)
    {name : String} {tree : Json} (htree : tree ∈ held name members) : tree.WellFormed := by
  obtain ⟨m, hm, rfl⟩ := List.mem_map.1 htree
  exact (wellFormed_object_iff.1 h m (List.mem_filter.1 hm).1).2

end Json

/-! ## Records -/

theorem bind_eq_ok_iff {α β : Type} {first : Except DecodeError α} {next : α → Except DecodeError β}
    {b : β} : first.bind next = .ok b ↔ ∃ a, first = .ok a ∧ next a = .ok b :=
  ⟨bind_eq_ok, fun ⟨a, hfirst, hnext⟩ => by rw [hfirst]; exact hnext⟩

theorem map_eq_ok_iff {α β : Type} {first : Except DecodeError α} {make : α → β} {b : β} :
    first.map make = .ok b ↔ ∃ a, first = .ok a ∧ make a = b :=
  ⟨map_eq_ok, fun ⟨a, hfirst, hmake⟩ => by rw [hfirst, ← hmake]; rfl⟩

namespace Fields

/-- The spellings of the fields of a record that are decoded as the given values. -/
def readings : (fields : Fields) → fields.Values → Json.Spellings
  | [], _ => []
  | (name, kind) :: rest, (value, values) =>
    (name, fun tree => decode kind tree = .ok value) :: readings rest values

theorem find?_eq_none {fields : Fields} {name : String} (h : name ∉ fields.map Prod.fst) :
    fields.find? name = none := by
  induction fields with
  | nil => rfl
  | cons field rest ih =>
    rw [List.map_cons, List.mem_cons, not_or] at h
    rw [find?, if_neg (Ne.symm h.1), ih h.2]
    rfl

/-- A field that is known is not held again, and any other is held once. -/
def Supplied (kind : Kind) (value : kind.Carrier) (trees : List Json) : Option kind.Carrier → Prop
  | some known => known = value ∧ trees = []
  | none => ∃ tree, trees = [tree] ∧ decode kind tree = .ok value

/-- The members of an object supply the first field and, whatever it is, the others. -/
theorem decodeMembers_cons_iff {name : String} {kind : Kind} {fields : Fields}
    (hname : name ∉ fields.map Prod.fst) {value : kind.Carrier} {values : fields.Values}
    {members : List (Option String × Json)} (hclean : Json.Clean members)
    (slot : Option kind.Carrier) (slots : fields.Slots) :
    decodeMembers ((name, kind) :: fields) (slot, slots) members = .ok (value, values) ↔
      Supplied kind value (Json.held name members) slot ∧
        decodeMembers fields slots members = .ok values := by
  induction members generalizing slot slots with
  | nil =>
    rw [decodeMembers, decodeMembers, Slots.finish, Slots.finish, Slots.values?]
    cases slot with
    | none => simp [Supplied]
    | some known => cases slots.values? <;> simp [Supplied]
  | cons first rest ih =>
    obtain ⟨key, tree⟩ := first
    obtain ⟨⟨hkey, hintact⟩, hrest⟩ := List.forall_mem_cons.1 hclean
    cases key with
    | none => exact absurd rfl hkey
    | some key =>
      by_cases hsame : name = key
      · subst hsame
        have hother : decodeMembers fields slots ((some name, tree) :: rest) =
            decodeMembers fields slots rest := by
          rw [decodeMembers, find?_eq_none hname]
          exact if_pos hintact
        rw [hother, Json.held_cons_self]
        cases slot with
        | some known =>
          rw [decodeMembers_again]
          simp [Supplied]
        | none =>
          rw [decodeMembers_first, bind_eq_ok_iff]
          simp only [ih hrest, Supplied, List.cons.injEq]
          constructor
          · rintro ⟨found, hfound, ⟨rfl, hnone⟩, hvalues⟩
            exact ⟨⟨tree, ⟨rfl, hnone⟩, hfound⟩, hvalues⟩
          · rintro ⟨⟨_, ⟨rfl, hnone⟩, hfound⟩, hvalues⟩
            exact ⟨value, hfound, ⟨rfl, hnone⟩, hvalues⟩
      · rw [Json.held_cons_of_ne hsame]
        cases hplace : find? fields key with
        | none =>
          rw [decodeMembers, decodeMembers, find?, if_neg hsame, hplace]
          simp only [Option.map_none]
          rw [if_pos hintact, if_pos hintact]
          exact ih hrest slot slots
        | some place =>
          rw [decodeMembers_later _ _ hsame hplace, decodeMembers, hplace]
          dsimp only
          split
          · simp
          · simp only [bind_eq_ok_iff, ih hrest]
            constructor
            · rintro ⟨found, hfound, hslot, hvalues⟩
              exact ⟨hslot, found, hfound, hvalues⟩
            · rintro ⟨hslot, found, hfound, hvalues⟩
              exact ⟨found, hfound, hslot, hvalues⟩

/-- Members that belong to no field are passed over. -/
theorem decodeMembers_nil {members : List (Option String × Json)} (hclean : Json.Clean members) :
    decodeMembers [] () members = .ok () := by
  induction members with
  | nil => rfl
  | cons first rest ih =>
    obtain ⟨key, tree⟩ := first
    obtain ⟨⟨hkey, hintact⟩, hrest⟩ := List.forall_mem_cons.1 hclean
    cases key with
    | none => exact absurd rfl hkey
    | some key =>
      rw [decodeMembers, find?]
      exact (if_pos hintact).trans (ih hrest)

/-- An object is decoded as the values of the fields that it holds once. -/
theorem decodeMembers_eq_ok_iff {fields : Fields} (hnames : (fields.map Prod.fst).Nodup)
    {members : List (Option String × Json)} (hclean : Json.Clean members) (values : fields.Values) :
    decodeMembers fields fields.noSlots members = .ok values ↔
      (Json.object members).IsRecord (fields.readings values) := by
  induction fields with
  | nil =>
    rw [decodeMembers_nil hclean]
    exact ⟨fun _ field hfield => absurd hfield List.not_mem_nil, fun _ => rfl⟩
  | cons field rest ih =>
    obtain ⟨name, kind⟩ := field
    obtain ⟨value, values⟩ := values
    obtain ⟨hname, hrest⟩ := List.nodup_cons.1 hnames
    rw [noSlots, decodeMembers_cons_iff hname hclean, ih hrest]
    simp only [Supplied, Json.IsRecord, readings, List.forall_mem_cons]

/-- An array is decoded as the values of the fields that it holds in order. -/
theorem decodeInOrder_eq_ok_iff {fields : Fields} {items : List Json} (values : fields.Values) :
    decodeInOrder fields items = .ok values ↔ (Json.array items).IsRecord (fields.readings values) := by
  induction fields generalizing items with
  | nil =>
    cases items with
    | nil => exact ⟨fun _ => List.Forall₂.nil, fun _ => by rw [decodeInOrder]⟩
    | cons first rest =>
      rw [decodeInOrder]
      · exact ⟨fun h => (by cases h), fun h => (by cases h)⟩
      all_goals simp
  | cons field rest ih =>
    obtain ⟨name, kind⟩ := field
    obtain ⟨value, values⟩ := values
    cases items with
    | nil =>
      rw [decodeInOrder]
      · exact ⟨fun h => (by cases h), fun h => (by cases h)⟩
      all_goals simp
    | cons first others =>
      rw [decodeInOrder]
      simp only [bind_eq_ok_iff, map_eq_ok_iff, ih]
      change _ ↔ List.Forall₂ _ (_ :: _) _
      rw [List.forall₂_cons]
      constructor
      · rintro ⟨found, hfound, more, hmore, heq⟩
        obtain ⟨rfl, rfl⟩ := Prod.mk.inj heq
        exact ⟨hfound, hmore⟩
      · rintro ⟨hfound, hmore⟩
        exact ⟨value, hfound, values, hmore, rfl⟩

end Fields

/-- The values of a record, from the members of an object or the items of an array. -/
theorem decodeBody_eq_ok_iff {α : Type} {fields : Fields} (hnames : (fields.map Prod.fst).Nodup)
    (make : fields.Values → α) {tree : Json} (htree : tree.WellFormed) (value : α) :
    (match tree with
      | .object members => (decodeMembers fields fields.noSlots members).map make
      | .array items => (decodeInOrder fields items).map make
      | _ => .error .mismatch) = .ok value ↔
      ∃ values, tree.IsRecord (fields.readings values) ∧ make values = value := by
  cases tree with
  | object members =>
    simp only [map_eq_ok_iff, Fields.decodeMembers_eq_ok_iff hnames htree.clean]
  | array items =>
    simp only [map_eq_ok_iff, Fields.decodeInOrder_eq_ok_iff]
  | _ => simp [Json.IsRecord]

/-! ## Lists -/

theorem decodeItems_eq_ok_iff {item : Kind} {trees : List Json} {values : List item.Carrier} :
    decodeItems item trees = .ok values ↔
      List.Forall₂ (fun value tree => decode item tree = .ok value) values trees := by
  induction trees generalizing values with
  | nil =>
    rw [decodeItems, List.forall₂_nil_right_iff]
    exact ⟨fun h => (Except.ok.inj h).symm, fun h => h ▸ rfl⟩
  | cons first rest ih =>
    rw [decodeItems]
    simp only [bind_eq_ok_iff, map_eq_ok_iff, ih, List.forall₂_cons_right_iff]
    constructor
    · rintro ⟨value, hvalue, more, hmore, rfl⟩
      exact ⟨value, more, hvalue, hmore, rfl⟩
    · rintro ⟨value, more, hvalue, hmore, rfl⟩
      exact ⟨value, hvalue, more, hmore, rfl⟩

/-! ## Variants -/

/-- The tree names a variant and is decoded with it as the value. -/
def Payload.Reads {α : Type} (name : String) (tree : Json) (value : α) : Payload α → Prop
  | .unit found => Json.IsUnit name tree ∧ found = value
  | .single kind make =>
    ∃ part, Json.IsTagged name (fun inner => decode kind inner = .ok part) tree ∧ make part = value
  | .record fields make =>
    ∃ values, Json.IsTagged name (Json.IsRecord (fields.readings values)) tree ∧ make values = value

/-- With different names, a variant is found by its name. -/
theorem lookup_eq_some_iff_mem {α : Type} {variants : List (String × Payload α)}
    (hnames : (variants.map Prod.fst).Nodup) {name : String} {payload : Payload α} :
    variants.lookup name = some payload ↔ (name, payload) ∈ variants := by
  refine ⟨mem_of_lookup, fun hmem => ?_⟩
  obtain ⟨before, after, rfl⟩ := List.append_of_mem hmem
  refine List.lookup_eq_some_iff.2 ⟨before, after, rfl, fun variant hvariant => ?_⟩
  rw [List.map_append, List.nodup_append] at hnames
  have hne := hnames.2.2 variant.1 (List.mem_map_of_mem hvariant) name
    (List.mem_map_of_mem List.mem_cons_self)
  simpa using Ne.symm hne

/-- No two variants of a form have one name. -/
def Form.DistinctVariants {α : Type} : Form α → Prop
  | .choice variants => (variants.map Prod.fst).Nodup
  | _ => True

theorem distinctVariants_form (kind : Kind) : kind.form.DistinctVariants := by
  cases kind with
  | binaryOp => simp [Kind.form, Form.DistinctVariants, Kind.binaryOpVariants]
  | literal => simp [Kind.form, Form.DistinctVariants, Kind.literalVariants]
  | expr => simp [Kind.form, Form.DistinctVariants, Kind.exprVariants]
  | projection => simp [Kind.form, Form.DistinctVariants, Kind.projectionVariants]
  | _ => simp [Kind.form, Form.DistinctVariants]

section

variable {kind : Kind} {variants : List (String × Payload kind.Carrier)}
  (hform : kind.form = .choice variants) {tree : Json} (htree : tree.WellFormed) {value : kind.Carrier}
include hform

/-- A variant of a form is found by its name. -/
theorem lookup_of_mem {name : String} {payload : Payload kind.Carrier}
    (hvariant : (name, payload) ∈ variants) : variants.lookup name = some payload := by
  have hdistinct := distinctVariants_form kind
  rw [hform] at hdistinct
  exact (lookup_eq_some_iff_mem hdistinct).2 hvariant

include htree

/-- What is decoded names a variant. -/
theorem reads_of_decode (h : decode kind tree = .ok value) :
    ∃ variant ∈ variants, variant.2.Reads variant.1 tree value := by
  rw [decode, hform] at h
  dsimp only at h
  split at h
  · unfold namedUnit at h
    split at h
    · next unit hvariant =>
      obtain rfl := Except.ok.inj h
      exact ⟨_, mem_of_lookup hvariant, .inl rfl, rfl⟩
    · cases h
  · next name payload rest =>
    have hpayload := (Json.wellFormed_object_iff.1 htree _ List.mem_cons_self).2
    obtain ⟨found, hfound, hend⟩ := bind_eq_ok h
    obtain rfl : rest = [] := by
      cases rest with
      | nil => rfl
      | cons first others => cases hend
    obtain rfl : found = value := eq_of_check hend
    split at hfound
    · next unit hvariant =>
      unfold decodeUnit at hfound
      split at hfound
      · obtain rfl := Except.ok.inj hfound
        exact ⟨_, mem_of_lookup hvariant, .inr rfl, rfl⟩
      · cases hfound
    · next inner make hvariant =>
      obtain ⟨part, hpart, rfl⟩ := map_eq_ok hfound
      exact ⟨_, mem_of_lookup hvariant, part, ⟨payload, rfl, hpart⟩, rfl⟩
    · next fields make hvariant =>
      obtain ⟨values, hvalues, rfl⟩ :=
        (decodeBody_eq_ok_iff (nodup_of_variant hform hvariant) make hpayload _).1 hfound
      exact ⟨_, mem_of_lookup hvariant, values, ⟨payload, rfl, hvalues⟩, rfl⟩
    · cases hfound
  · cases h

/-- What names a variant is decoded. -/
theorem Payload.Reads.decode {name : String} {payload : Payload kind.Carrier}
    (hvariant : (name, payload) ∈ variants) (h : payload.Reads name tree value) :
    decode kind tree = .ok value := by
  have hlookup := lookup_of_mem hform hvariant
  cases payload with
  | unit found =>
    obtain ⟨rfl | rfl, rfl⟩ := h
    · rw [Json.text, SqlSelect.decode, hform]
      simp only [namedUnit, hlookup]
    · rw [Json.tagged, Json.record, List.map_singleton, SqlSelect.decode, hform]
      simp only [hlookup]
      rfl
  | single inner make =>
    obtain ⟨part, ⟨inner, rfl, hpart⟩, rfl⟩ := h
    rw [Json.tagged, Json.record, List.map_singleton, SqlSelect.decode, hform]
    simp only [hlookup, hpart]
    rfl
  | record fields make =>
    obtain ⟨values, ⟨body, rfl, hvalues⟩, rfl⟩ := h
    have hdecoded := (decodeBody_eq_ok_iff (nodup_of_variant hform hlookup) make
      (Json.wellFormed_tagged_iff.1 htree) _).2 ⟨values, hvalues, rfl⟩
    rw [Json.tagged, Json.record, List.map_singleton, SqlSelect.decode, hform]
    simp only [hlookup]
    exact bind_eq_ok_iff.2 ⟨_, hdecoded, rfl⟩

/-- The values of a choice, by its variants. -/
theorem decode_choice_eq_ok_iff :
    decode kind tree = .ok value ↔ ∃ variant ∈ variants, variant.2.Reads variant.1 tree value :=
  ⟨reads_of_decode hform htree, fun ⟨_, hvariant, h⟩ => h.decode hform htree hvariant⟩

end

/-- The values of a record kind. -/
theorem decode_record_eq_ok_iff {kind : Kind} {fields : Fields} {make : fields.Values → kind.Carrier}
    (hform : kind.form = .record fields make) {tree : Json} (htree : tree.WellFormed)
    {value : kind.Carrier} :
    decode kind tree = .ok value ↔
      ∃ values, tree.IsRecord (fields.readings values) ∧ make values = value := by
  rw [decode, hform]
  exact decodeBody_eq_ok_iff (nodup_of_form hform) make htree value

theorem decode_list_eq_ok_iff {item : Kind} {tree : Json} {values : List item.Carrier} :
    decode (.list item) tree = .ok values ↔
      tree.IsArray (List.Forall₂ (fun value tree => decode item tree = .ok value) values) := by
  rw [decode]
  simp only [Kind.form]
  cases tree with
  | array items => simp [decodeItems_eq_ok_iff, Json.IsArray]
  | _ => simp [Json.IsArray]

end SqlSelect
