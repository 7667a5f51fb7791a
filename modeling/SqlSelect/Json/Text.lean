import SqlSelect.Each
import SqlSelect.Json.Basic
import SqlSelect.Json.Quoting

/-!
# JSON text

The text of a tree, without white space. An exponent that is not negative has a plus sign.
-/

namespace SqlSelect.Json

/-- The text of an array from the texts of its items. -/
def arrayText (items : List (List Char)) : List Char := '[' :: ",".toList.intercalate items ++ [']']

/-- The text of an object from the texts of its members. -/
def objectText (members : List (List Char)) : List Char :=
  '\x7b' :: ",".toList.intercalate members ++ ['\x7d']

/-- The text of a string. One without content has no text. -/
def stringText : Option String → List Char
  | some content => JsonString.write content.toList
  | none => []

/-- A key, a colon, and the text of the value. -/
def memberText (key : Option String) (value : List Char) : List Char :=
  stringText key ++ ':' :: value

/-- The texts of the two truth values. -/
def boolText (b : Bool) : List Char := if b then "true".toList else "false".toList

mutual

/-- The text of a tree. -/
def render : Json → List Char
  | null => "null".toList
  | bool b => boolText b
  | number numeral => numeral.text true
  | string content => stringText content
  | array items => arrayText (renderEach items)
  | object members => objectText (renderMembers members)
  | cut => []

/-- The texts of several trees. -/
def renderEach : List Json → List (List Char)
  | [] => []
  | first :: rest => first.render :: renderEach rest

/-- The texts of several members. -/
def renderMembers : List (Option String × Json) → List (List Char)
  | [] => []
  | (key, value) :: rest => memberText key value.render :: renderMembers rest

end

/-- The text of an array is made of those of its items. -/
theorem render_array (items : List Json) : (array items).render = arrayText (items.map render) :=
  congrArg arrayText (each_eq_map renderEach rfl (fun _ _ => rfl) items)

/-- The text of an object is made of those of its members. -/
theorem render_object (members : List (Option String × Json)) :
    (object members).render =
      objectText (members.map fun member => memberText member.1 member.2.render) :=
  congrArg objectText (each_eq_map renderMembers rfl (fun _ _ => rfl) members)

end SqlSelect.Json
