/-!
# Lists treated member by member

The trees of this library hold lists of trees, so a function on trees recurses together with one that
goes through a list of them. What the latter does to an empty list and to a first member decides what
it does to every list: it maps the list.
-/

namespace SqlSelect

variable {α β : Type}

/-- A function that gives one value for each member is a map. -/
theorem each_eq_map (each : List α → List β) {f : α → β} (hnil : each [] = [])
    (hcons : ∀ first rest, each (first :: rest) = f first :: each rest) (items : List α) :
    each items = items.map f := by
  induction items with
  | nil => exact hnil
  | cons first rest ih => rw [hcons, ih, List.map_cons]

/-- A function that gives several values for each member is a map whose lists are joined. -/
theorem each_eq_flatMap (each : List α → List β) {f : α → List β} (hnil : each [] = [])
    (hcons : ∀ first rest, each (first :: rest) = f first ++ each rest) (items : List α) :
    each items = items.flatMap f := by
  induction items with
  | nil => exact hnil
  | cons first rest ih => rw [hcons, ih, List.flatMap_cons]

end SqlSelect
