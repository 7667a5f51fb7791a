import SqlSelect.Json.Basic
import SqlSelect.Json.Token

/-!
# Reading JSON

The tokens of a text are read one after the other. A state holds the arrays and objects that are
still open, the innermost first, and says what may come next. A token that may not come stops the
reading: every open array and object is closed there with a cut in it, and later tokens are
ignored. So the tree of a broken text holds all that comes before the break.
-/

namespace SqlSelect

/-- An array or an object that waits for a value. Items and members are kept last first. -/
inductive JsonFrame where
  | array (items : List Json)
  | object (members : List (Option String × Json)) (key : Option String)

namespace JsonFrame

/-- The array or object with its value, if nothing else follows. -/
def close (value : Json) : JsonFrame → Json
  | array items => .array (value :: items).reverse
  | object members key => .object ((key, value) :: members).reverse

/-- The tree around a value, if nothing else follows. -/
def closeAll (value : Json) (frames : List JsonFrame) : Json := frames.foldl close value

end JsonFrame

/-- How far a JSON text has been read. -/
inductive JsonState where
  /-- A value must come. -/
  | value (outer : List JsonFrame)
  /-- An array has just been opened. -/
  | firstItem (outer : List JsonFrame)
  /-- An item of an array has been read. -/
  | afterItem (items : List Json) (outer : List JsonFrame)
  /-- An object has just been opened. -/
  | firstKey (outer : List JsonFrame)
  /-- A key must come. -/
  | nextKey (members : List (Option String × Json)) (outer : List JsonFrame)
  /-- A colon must come. -/
  | colon (members : List (Option String × Json)) (key : Option String) (outer : List JsonFrame)
  /-- A member of an object has been read. -/
  | afterMember (members : List (Option String × Json)) (outer : List JsonFrame)
  /-- The value of the text has been read. -/
  | complete (value : Json)
  /-- A token came that may not come, or one after the value of the text. -/
  | stopped (value : Json)

namespace JsonState

/-- The state after a value has been read. -/
def place (found : Json) : List JsonFrame → JsonState
  | [] => complete found
  | .array items :: outer => afterItem (found :: items) outer
  | .object members key :: outer => afterMember ((key, found) :: members) outer

/-- The tree of what has been read, with a cut where more must come. -/
def tree : JsonState → Json
  | value outer => JsonFrame.closeAll .cut outer
  | firstItem outer => JsonFrame.closeAll (.array [.cut]) outer
  | afterItem items outer => JsonFrame.closeAll (.array (.cut :: items).reverse) outer
  | firstKey outer => JsonFrame.closeAll (.object [(none, .cut)]) outer
  | nextKey members outer => JsonFrame.closeAll (.object ((none, .cut) :: members).reverse) outer
  | colon members key outer => JsonFrame.closeAll (.object ((key, .cut) :: members).reverse) outer
  | afterMember members outer =>
    JsonFrame.closeAll (.object ((none, .cut) :: members).reverse) outer
  | complete whole => whole
  | stopped read => read

/-- The state after the first token of a value, if a value starts with it. -/
def start? (outer : List JsonFrame) : JsonToken → Option JsonState
  | .null => some (place .null outer)
  | .bool b => some (place (.bool b) outer)
  | .number numeral => some (place (.number numeral) outer)
  | .string content => some (place (.string content) outer)
  | .openBracket => some (firstItem outer)
  | .openBrace => some (firstKey outer)
  | _ => none

/-- The state after one more token, if the token may come. -/
def next? : JsonState → JsonToken → Option JsonState
  | value outer, token => start? outer token
  | firstItem outer, .closeBracket => some (place (.array []) outer)
  | firstItem outer, token => start? (.array [] :: outer) token
  | afterItem items outer, .closeBracket => some (place (.array items.reverse) outer)
  | afterItem items outer, .comma => some (value (.array items :: outer))
  | firstKey outer, .closeBrace => some (place (.object []) outer)
  | firstKey outer, .string key => some (colon [] key outer)
  | nextKey members outer, .string key => some (colon members key outer)
  | colon members key outer, .colon => some (value (.object members key :: outer))
  | afterMember members outer, .closeBrace => some (place (.object members.reverse) outer)
  | afterMember members outer, .comma => some (nextKey members outer)
  | _, _ => none

/-- The state after one more token. -/
def next (state : JsonState) (token : JsonToken) : JsonState :=
  match state with
  | stopped read => stopped read
  | state => (state.next? token).getD (stopped state.tree)

/-- Whether the text is one value and nothing else. -/
def isComplete : JsonState → Bool
  | complete _ => true
  | _ => false

end JsonState

namespace Json

/-- The state at the end of a text. -/
def readTokens (tokens : List JsonToken) : JsonState := tokens.foldl JsonState.next (.value [])

/-- The tree of a text, and whether the text is one JSON value and nothing else. Arrays and objects may
be nested to any depth; a reader that refuses texts beyond some depth is not modelled. -/
def read (text : List Char) : Json × Bool :=
  let state := readTokens (jsonTokens text)
  (state.tree, state.isComplete)

end Json

end SqlSelect
