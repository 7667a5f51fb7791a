import SqlSelect.Decimal.Numeral

/-!
# JSON trees

A tree keeps what is written: numbers as numerals, and the members of an object in their order
with repeated keys. A tree also says how far a broken text could be read: where the text stops
being JSON the tree has a cut. A string whose escapes spell half of a surrogate pair has no
content, although it may stand in a JSON text.
-/

namespace SqlSelect

/-- A JSON text as a tree. -/
inductive Json where
  | null
  | bool (b : Bool)
  | number (numeral : Numeral)
  /-- A string and its content; without one, its escapes spell no text. -/
  | string (content : Option String)
  | array (items : List Json)
  | object (members : List (Option String × Json))
  /-- The place where the text stops being JSON. -/
  | cut

namespace Json

/-- A string with the given content. -/
def text (content : String) : Json := string (some content)

/-- An object with the given members. -/
def record (members : List (String × Json)) : Json :=
  object (members.map fun member => (some member.1, member.2))

/-- An object with one member. -/
def tagged (tag : String) (payload : Json) : Json := record [(tag, payload)]

mutual

/-- Whether a tree has no cut. -/
def isIntact : Json → Bool
  | null => true
  | bool _ => true
  | number _ => true
  | string _ => true
  | array items => areIntact items
  | object members => membersAreIntact members
  | cut => false

/-- Whether no tree of a list has a cut. -/
def areIntact : List Json → Bool
  | [] => true
  | first :: rest => first.isIntact && areIntact rest

/-- Whether no value of an object has a cut. -/
def membersAreIntact : List (Option String × Json) → Bool
  | [] => true
  | (_, value) :: rest => value.isIntact && membersAreIntact rest

end

end Json

end SqlSelect
