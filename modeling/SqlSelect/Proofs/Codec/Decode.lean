import SqlSelect.Proofs.Codec.Represents

/-!
# What holds for every decoded value

A decoded value is put together by the forms of the kinds out of decoded parts. So a property of
values holds for all that is ever decoded if the readers of the scalars establish it and every form
carries it over from the parts to the whole. The induction runs over the tree; in an object it also
follows the slots, in which the values of the fields gather one by one.
-/

namespace SqlSelect

section

variable (good : (kind : Kind) → kind.Carrier → Prop)

/-- A property holds for the values of all fields. -/
def Fields.All : (fields : Fields) → fields.Values → Prop
  | [], _ => True
  | (_, kind) :: rest, (value, values) => good kind value ∧ All rest values

/-- A property holds for all the values that are known. -/
def Fields.AllKnown : (fields : Fields) → fields.Slots → Prop
  | [], _ => True
  | (_, kind) :: rest, (slot, slots) => (∀ value ∈ slot, good kind value) ∧ AllKnown rest slots

/-- What comes with a variant carries a property over from the parts to the whole. -/
def Payload.Keeps {α : Type} (p : α → Prop) : Payload α → Prop
  | .unit value => p value
  | .single kind make => ∀ value, good kind value → p (make value)
  | .record fields make => ∀ values, fields.All good values → p (make values)

/-- A form establishes a property or carries it over from the parts to the whole. -/
def Form.Keeps {α : Type} (p : α → Prop) : Form α → Prop
  | .scalar read => ∀ tree value, read tree = .ok value → p value
  | .list item make => ∀ values, (∀ value ∈ values, good item value) → p (make values)
  | .record fields make => ∀ values, fields.All good values → p (make values)
  | .choice variants => ∀ variant ∈ variants, variant.2.Keeps good p

/-- A property holds for whatever a tree is decoded as. -/
def Json.DecodesTo (tree : Json) : Prop :=
  ∀ (kind : Kind) (value : kind.Carrier), decode kind tree = .ok value → good kind value

end

variable {good : (kind : Kind) → kind.Carrier → Prop}

/-! ## Slots -/

namespace Fields

theorem allKnown_noSlots (fields : Fields) : fields.AllKnown good fields.noSlots := by
  induction fields with
  | nil => trivial
  | cons field rest ih => exact ⟨fun value h => absurd h (Option.not_mem_none value), ih⟩

/-- A good value may be put in. -/
theorem allKnown_set {fields : Fields} {slots : fields.Slots} (h : fields.AllKnown good slots)
    (place : fields.Place) {value : place.kind.Carrier} (hvalue : good place.kind value) :
    fields.AllKnown good (slots.set place value) := by
  induction place with
  | first =>
    refine ⟨fun found hfound => ?_, h.2⟩
    obtain rfl := Option.some.inj hfound
    exact hvalue
  | later place ih => exact ⟨h.1, ih h.2 hvalue⟩

/-- Once all values are known, the property holds for all of them. -/
theorem all_of_finish {fields : Fields} {slots : fields.Slots} (h : fields.AllKnown good slots)
    {values : fields.Values} (hvalues : slots.finish = .ok values) : fields.All good values := by
  have hfound : slots.values? = some values := by
    unfold Slots.finish at hvalues
    split at hvalues
    · next hsome => rw [hsome, Except.ok.inj hvalues]
    · cases hvalues
  clear hvalues
  induction fields with
  | nil => trivial
  | cons field rest ih =>
    obtain ⟨slot, others⟩ := slots
    unfold Slots.values? at hfound
    split at hfound
    · next value more hslot hmore =>
      obtain rfl := Option.some.inj hfound
      exact ⟨h.1 value hslot, ih h.2 hmore⟩
    · cases hfound

end Fields

/-! ## The parts of a tree -/

/-- Decoding ends well in two steps only if both end well. -/
theorem bind_eq_ok {α β : Type} {first : Except DecodeError α} {next : α → Except DecodeError β}
    {b : β} (h : first.bind next = .ok b) : ∃ a, first = .ok a ∧ next a = .ok b := by
  cases first with
  | error e => cases h
  | ok a => exact ⟨a, rfl, h⟩

theorem map_eq_ok {α β : Type} {first : Except DecodeError α} {make : α → β} {b : β}
    (h : first.map make = .ok b) : ∃ a, first = .ok a ∧ make a = b := by
  cases first with
  | error e => cases h
  | ok a => exact ⟨a, rfl, Except.ok.inj h⟩

/-- A last check changes nothing about what was decoded. -/
theorem eq_of_check {α : Type} {c : Prop} [Decidable c] {found value : α}
    (h : (if c then .ok found else .error .mismatch : Except DecodeError α) = .ok value) :
    found = value := by
  split at h
  · exact Except.ok.inj h
  · cases h

/-- The items of an array are decoded one by one. -/
theorem good_of_decodeItems {item : Kind} {trees : List Json}
    (htrees : ∀ tree ∈ trees, tree.DecodesTo good) {values : List item.Carrier}
    (h : decodeItems item trees = .ok values) : ∀ value ∈ values, good item value := by
  induction trees generalizing values with
  | nil =>
    rw [decodeItems] at h
    obtain rfl := Except.ok.inj h
    exact fun value hvalue => absurd hvalue List.not_mem_nil
  | cons first rest ih =>
    rw [List.forall_mem_cons] at htrees
    rw [decodeItems] at h
    obtain ⟨value, hvalue, h⟩ := bind_eq_ok h
    obtain ⟨others, hothers, rfl⟩ := map_eq_ok h
    exact List.forall_mem_cons.2 ⟨htrees.1 item value hvalue, ih htrees.2 hothers⟩

/-- The members of an object fill the slots one by one. -/
theorem good_of_decodeMembers {fields : Fields} {members : List (Option String × Json)}
    (hmembers : ∀ m ∈ members, m.2.DecodesTo good) {slots : fields.Slots}
    (hslots : fields.AllKnown good slots) {values : fields.Values}
    (h : decodeMembers fields slots members = .ok values) : fields.All good values := by
  induction members generalizing slots with
  | nil =>
    rw [decodeMembers] at h
    exact Fields.all_of_finish hslots h
  | cons first rest ih =>
    obtain ⟨key, tree⟩ := first
    rw [List.forall_mem_cons] at hmembers
    cases key with
    | none =>
      rw [decodeMembers] at h
      cases h
    | some name =>
      rw [decodeMembers] at h
      split at h
      · split at h
        · exact ih hmembers.2 hslots h
        · cases h
      · next place _ =>
        split at h
        · cases h
        · obtain ⟨value, hvalue, h⟩ := bind_eq_ok h
          have hgood := hmembers.1 place.kind value hvalue
          exact ih hmembers.2 (Fields.allKnown_set hslots place hgood) h

/-- The items of an array are the values of the fields in order. -/
theorem good_of_decodeInOrder {fields : Fields} {trees : List Json}
    (htrees : ∀ tree ∈ trees, tree.DecodesTo good) {values : fields.Values}
    (h : decodeInOrder fields trees = .ok values) : fields.All good values := by
  induction fields generalizing trees with
  | nil => trivial
  | cons field rest ih =>
    obtain ⟨name, kind⟩ := field
    cases trees with
    | nil =>
      rw [decodeInOrder] at h
      · cases h
      all_goals simp
    | cons first others =>
      rw [List.forall_mem_cons] at htrees
      rw [decodeInOrder] at h
      obtain ⟨value, hvalue, h⟩ := bind_eq_ok h
      obtain ⟨more, hmore, rfl⟩ := map_eq_ok h
      exact ⟨htrees.1 kind value hvalue, ih htrees.2 hmore⟩

/-! ## The whole tree -/

theorem Json.sizeOf_item {items : List Json} {item : Json} (h : item ∈ items) :
    sizeOf item < sizeOf (Json.array items) := by
  have hitem := List.sizeOf_lt_of_mem h
  rw [Json.array.sizeOf_spec]
  omega

theorem Json.sizeOf_member {members : List (Option String × Json)} {m : Option String × Json}
    (h : m ∈ members) : sizeOf m.2 < sizeOf (Json.object members) := by
  have hmember := List.sizeOf_lt_of_mem h
  obtain ⟨key, tree⟩ := m
  rw [Prod.mk.sizeOf_spec] at hmember
  rw [Json.object.sizeOf_spec]
  dsimp only
  omega

/-- A record is decoded from the parts of an object or an array. -/
theorem good_of_record {α : Type} {p : α → Prop} {fields : Fields} {make : fields.Values → α}
    (hmake : ∀ values, fields.All good values → p (make values)) {tree : Json}
    (hparts : ∀ part : Json, sizeOf part < sizeOf tree → part.DecodesTo good) {value : α}
    (h : (match tree with
      | .object members => (decodeMembers fields fields.noSlots members).map make
      | .array items => (decodeInOrder fields items).map make
      | _ => .error .mismatch) = .ok value) : p value := by
  split at h
  · next members =>
    obtain ⟨values, hvalues, rfl⟩ := map_eq_ok h
    have hmembers : ∀ m ∈ members, m.2.DecodesTo good := fun m hm =>
      hparts m.2 (Json.sizeOf_member hm)
    exact hmake values
      (good_of_decodeMembers hmembers (Fields.allKnown_noSlots fields) hvalues)
  · next items =>
    obtain ⟨values, hvalues, rfl⟩ := map_eq_ok h
    have hitems : ∀ item ∈ items, item.DecodesTo good := fun item hitem =>
      hparts item (Json.sizeOf_item hitem)
    exact hmake values (good_of_decodeInOrder hitems hvalues)
  · cases h

/-- A variant without payload is decoded from its name. -/
theorem good_of_namedUnit {α : Type} {p : α → Prop} {variants : List (String × Payload α)}
    (hkeeps : ∀ variant ∈ variants, variant.2.Keeps good p) {name : String} {value : α}
    (h : namedUnit variants name = .ok value) : p value := by
  unfold namedUnit at h
  split at h
  · next unit hvariant =>
    obtain rfl := Except.ok.inj h
    exact hkeeps _ (mem_of_lookup hvariant)
  · cases h

/-- A choice is decoded from the name of a variant and its payload. -/
theorem good_of_choice {kind : Kind} {variants : List (String × Payload kind.Carrier)}
    (hform : kind.form = .choice variants)
    (hkeeps : ∀ variant ∈ variants, variant.2.Keeps good (good kind)) {tree : Json}
    (hparts : ∀ part : Json, sizeOf part < sizeOf tree → part.DecodesTo good)
    {value : kind.Carrier} (h : decode kind tree = .ok value) : good kind value := by
  rw [decode, hform] at h
  dsimp only at h
  split at h
  · exact good_of_namedUnit hkeeps h
  · next name payload rest =>
    obtain ⟨found, hfound, hend⟩ := bind_eq_ok h
    obtain rfl : found = value := eq_of_check hend
    have hsize : sizeOf payload < sizeOf (Json.object ((some name, payload) :: rest)) :=
      Json.sizeOf_member (m := (some name, payload)) List.mem_cons_self
    split at hfound
    · next unit hvariant =>
      unfold decodeUnit at hfound
      split at hfound
      · obtain rfl := Except.ok.inj hfound
        exact hkeeps _ (mem_of_lookup hvariant)
      · cases hfound
    · next inner make hvariant =>
      obtain ⟨part, hpart, rfl⟩ := map_eq_ok hfound
      exact hkeeps _ (mem_of_lookup hvariant) part (hparts payload hsize inner part hpart)
    · next fields make hvariant =>
      exact good_of_record (hkeeps _ (mem_of_lookup hvariant))
        (fun part hpart => hparts part (Nat.lt_trans hpart hsize)) hfound
    · cases hfound
  · cases h

/-- What the forms keep holds for every decoded value. -/
theorem good_of_decode (keeps : ∀ kind : Kind, kind.form.Keeps good (good kind)) (tree : Json) :
    tree.DecodesTo good := by
  intro kind value h
  have hparts : ∀ part : Json, sizeOf part < sizeOf tree → part.DecodesTo good :=
    fun part hpart => good_of_decode keeps part
  have hkeeps := keeps kind
  cases hform : kind.form with
  | scalar read =>
    rw [decode, hform] at h
    rw [hform] at hkeeps
    exact hkeeps tree value h
  | list item make =>
    rw [decode, hform] at h
    rw [hform] at hkeeps
    dsimp only at h
    split at h
    · next items =>
      obtain ⟨values, hvalues, rfl⟩ := map_eq_ok h
      have hitems : ∀ part ∈ items, part.DecodesTo good := fun part hpart =>
        hparts part (Json.sizeOf_item hpart)
      exact hkeeps values (good_of_decodeItems hitems hvalues)
    · cases h
  | record fields make =>
    rw [decode, hform] at h
    rw [hform] at hkeeps
    exact good_of_record hkeeps hparts h
  | choice variants =>
    rw [hform] at hkeeps
    exact good_of_choice hform hkeeps hparts h
termination_by sizeOf tree

end SqlSelect
