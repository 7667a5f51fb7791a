import SqlSelect.Json.Basic
import SqlSelect.Tree.Basic

/-!
# Kinds of values and shapes of JSON forms

The library's values come in kinds, and every kind has a form in JSON: a scalar, a list of another
kind, a record with named fields, or a choice between named variants. Here are the kinds and the
shapes that a form can have; which kind has which form is said elsewhere. The fields of a record
are filled in the order in which they come, so a record is read with slots, one for each field,
that are empty at first.
-/

namespace SqlSelect

/-- Why a JSON text was not read as a value. -/
inductive DecodeError where
  /-- The text is no JSON, or the wrong JSON for the kind. -/
  | mismatch
  /-- A string stands for a real and names none. -/
  | invalidReal (content : String)
deriving DecidableEq

/-- What is said of an error, if anything. -/
def DecodeError.message? : DecodeError → Option String
  | mismatch => none
  | invalidReal content => some ("invalid real: '" ++ content ++ "'")

/-- The kinds of values that have a JSON form. -/
inductive Kind where
  | text
  | integer
  | byte
  | real
  | timestamp
  | binaryOp
  | unaryOp
  | function
  | direction
  | table
  | column
  | literal
  | expr
  | projection
  | sortKey
  | sortRule
  | query
  | list (item : Kind)
deriving DecidableEq

namespace Kind

/-- The values of a kind. -/
abbrev Carrier : Kind → Type
  | text => String
  | integer => Int64
  | byte => UInt8
  | real => Binary64
  | timestamp => Timestamp
  | binaryOp => BinaryOp
  | unaryOp => UnaryOp
  | function => FunctionName
  | direction => Direction
  | table => Table
  | column => Column
  | literal => Literal
  | expr => Expr
  | projection => Projection
  | sortKey => SortKey
  | sortRule => SortRule
  | query => Query
  | list item => List item.Carrier

end Kind

/-- The names and kinds of the fields of a record, in order. -/
abbrev Fields := List (String × Kind)

namespace Fields

/-- A value for every field, in order. -/
@[reducible] def Values : Fields → Type
  | [] => Unit
  | (_, kind) :: rest => kind.Carrier × Values rest

/-- A value for some of the fields, in order. -/
@[reducible] def Slots : Fields → Type
  | [] => Unit
  | (_, kind) :: rest => Option kind.Carrier × Slots rest

/-- A place in a record. -/
inductive Place : Fields → Type where
  | first {field : String × Kind} {rest : Fields} : Place (field :: rest)
  | later {field : String × Kind} {rest : Fields} (place : Place rest) : Place (field :: rest)

/-- The kind of the field at a place. -/
def Place.kind : {fields : Fields} → Place fields → Kind
  | (_, kind) :: _, .first => kind
  | _ :: _, .later place => place.kind

/-- The place of the first field with a name. -/
def find? : (fields : Fields) → String → Option (Place fields)
  | [], _ => none
  | (known, _) :: rest, name =>
    if known = name then some .first else (find? rest name).map .later

/-- No value for any field. -/
def noSlots : (fields : Fields) → Slots fields
  | [] => ()
  | _ :: rest => (none, noSlots rest)

/-- The value at a place, if there is one. -/
def Slots.get? : {fields : Fields} → Slots fields → (place : Place fields) →
    Option place.kind.Carrier
  | (_, _) :: _, slots, .first => slots.1
  | (_, _) :: _, slots, .later place => Slots.get? slots.2 place

/-- The slots with a value at one more place. -/
def Slots.set : {fields : Fields} → Slots fields → (place : Place fields) → place.kind.Carrier →
    Slots fields
  | (_, _) :: _, slots, .first, value => (some value, slots.2)
  | (_, _) :: _, slots, .later place, value => (slots.1, Slots.set slots.2 place value)

/-- The values of all fields, if none is missing. -/
def Slots.values? : {fields : Fields} → Slots fields → Option (Values fields)
  | [], _ => some ()
  | (_, _) :: _, slots =>
    match slots.1, Slots.values? slots.2 with
    | some value, some values => some (value, values)
    | _, _ => none

end Fields

/-- What comes with the name of a variant. -/
inductive Payload (α : Type) where
  /-- Nothing. -/
  | unit (value : α)
  /-- One value. -/
  | single (kind : Kind) (make : kind.Carrier → α)
  /-- A record. -/
  | record (fields : Fields) (make : fields.Values → α)

/-- The JSON form of a kind. -/
inductive Form (α : Type) where
  | scalar (read : Json → Except DecodeError α)
  | list (item : Kind) (make : List item.Carrier → α)
  | record (fields : Fields) (make : fields.Values → α)
  | choice (variants : List (String × Payload α))

end SqlSelect
