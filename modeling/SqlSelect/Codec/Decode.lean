import SqlSelect.Codec.Form
import SqlSelect.Json.Read

/-!
# Decoding

A JSON tree is read as a value of a kind by the form of the kind. A record is an object that holds
every field once, in any order and among other keys, or an array of exactly its fields in order. A
variant without payload is its name, or an object whose one key is the name and whose value is
null; any other variant is an object with one key. The parts of a tree are visited in the order of
the text, and the first fault is the one reported: a value that comes before a break of the text
is read before the break is met.
-/

namespace SqlSelect

/-- The values of all fields of a record, which must all be there. -/
def Fields.Slots.finish {fields : Fields} (slots : fields.Slots) :
    Except DecodeError fields.Values :=
  match slots.values? with
  | some values => .ok values
  | none => .error .mismatch

/-- The variant without payload that has a name. -/
def namedUnit {α : Type} (variants : List (String × Payload α)) (name : String) :
    Except DecodeError α :=
  match variants.lookup name with
  | some (.unit value) => .ok value
  | _ => .error .mismatch

/-- A variant without payload, for which null must stand. -/
def decodeUnit {α : Type} (value : α) : Json → Except DecodeError α
  | .null => .ok value
  | _ => .error .mismatch

mutual

/-- The value of a kind that a tree represents. -/
def decode (kind : Kind) (tree : Json) : Except DecodeError kind.Carrier :=
  match kind.form with
  | .scalar read => read tree
  | .list item make =>
    match tree with
    | .array items => (decodeItems item items).map make
    | _ => .error .mismatch
  | .record fields make =>
    match tree with
    | .object members => (decodeMembers fields fields.noSlots members).map make
    | .array items => (decodeInOrder fields items).map make
    | _ => .error .mismatch
  | .choice variants =>
    match tree with
    | .string (some name) => namedUnit variants name
    | .object ((some name, payload) :: rest) =>
      let decoded :=
        match variants.lookup name with
        | some (.unit value) => decodeUnit value payload
        | some (.single inner make) => (decode inner payload).map make
        | some (.record fields make) =>
          match payload with
          | .object members => (decodeMembers fields fields.noSlots members).map make
          | .array items => (decodeInOrder fields items).map make
          | _ => .error .mismatch
        | none => .error .mismatch
      decoded.bind fun value => if rest.isEmpty then .ok value else .error .mismatch
    | _ => .error .mismatch

/-- The values of a kind that the items of an array represent. -/
def decodeItems (item : Kind) : List Json → Except DecodeError (List item.Carrier)
  | [] => .ok []
  | first :: rest =>
    (decode item first).bind fun value =>
      (decodeItems item rest).map fun values => value :: values

/-- The values of the fields of a record of which some are known, with the members of an object
put in by their keys. -/
def decodeMembers (fields : Fields) (slots : fields.Slots) :
    List (Option String × Json) → Except DecodeError fields.Values
  | [] => slots.finish
  | (none, _) :: _ => .error .mismatch
  | (some name, tree) :: rest =>
    match fields.find? name with
    | none => if tree.isIntact then decodeMembers fields slots rest else .error .mismatch
    | some place =>
      if (slots.get? place).isSome then .error .mismatch
      else
        (decode place.kind tree).bind fun value =>
          decodeMembers fields (slots.set place value) rest

/-- The values of the fields of a record, from an array that holds exactly them. -/
def decodeInOrder : (fields : Fields) → List Json → Except DecodeError fields.Values
  | [], [] => .ok ()
  | (_, kind) :: fields, tree :: rest =>
    (decode kind tree).bind fun value =>
      (decodeInOrder fields rest).map fun values => (value, values)
  | _, _ => .error .mismatch

end

/-- The value of a kind that a JSON text represents. What follows the value of the text is looked
at only after the value has been read. No text is refused for how deep it is nested. -/
def decodeText (kind : Kind) (text : List Char) : Except DecodeError kind.Carrier :=
  let (tree, complete) := Json.read text
  (decode kind tree).bind fun value => if complete then .ok value else .error .mismatch

end SqlSelect
