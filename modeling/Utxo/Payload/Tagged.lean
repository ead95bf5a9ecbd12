import Utxo.Json.Writer
import Utxo.Payload.Json

/-!
# JSON that tells kinds apart

Every value stands under a name for its kind, so it can be read back as it was.
-/

namespace Utxo

namespace Json

/-- The only member of an object. -/
def single? : Json → Option (String × Json)
  | .object [(some name, value)] => some (name, value)
  | _ => none

/-- An integer, also one that is too long for a number. -/
def integer? : Json → Option Int
  | .integer n => some n
  | .string s => s.bind String.toInt?
  | _ => none

end Json

namespace Binary64

/-- The digits of a number's bits, or `nan` for whatever is no number. -/
def toTagged (x : Binary64) : Json :=
  .record [("f64", .text (if x.isNaN then "nan" else x.digits))]

def nan : Binary64 := ofFields 0 2047 (1 <<< 51)

def ofTagged? (j : Json) : Option Binary64 := do
  let ("f64", digits) ← j.single? | none
  if digits.text? = some "nan" then return nan
  else return ⟨UInt64.ofNat (Bytes.toNatBE (← digits.hex?))⟩

end Binary64

mutual

/-- A value under a name for its kind. -/
def FieldValue.toTagged : FieldValue → Json
  | .bool v => .record [("bool", .bool v)]
  | .int v => .record [("int", .integer v.toInt)]
  | .uint v => .record [("uint", .nat v.toNat)]
  | .float v => .record [("float", v.toTagged)]
  | .text v => .record [("text", .text v)]
  | .bytes v => .record [("bytes", .hex v)]
  | .object fields => .record [("object", .array (membersToTagged fields))]
  | .array items => .record [("array", .array (itemsToTagged items))]

def FieldValue.itemsToTagged : List FieldValue → List Json
  | [] => []
  | item :: rest => item.toTagged :: itemsToTagged rest

def FieldValue.membersToTagged : List (String × FieldValue) → List Json
  | [] => []
  | (name, value) :: rest => .array [.text name, value.toTagged] :: membersToTagged rest

end

/-- Pairs of a name and a value that tells its kind. -/
def Fields.toTagged (fields : Fields) : Json := .array (FieldValue.membersToTagged fields)

mutual

def FieldValue.ofTagged? : Json → Option FieldValue
  | .object [(some "bool", .bool v)] => some (.bool v)
  | .object [(some "int", v)] => v.integer?.map fun n => .int (Int64.ofInt n)
  | .object [(some "uint", v)] => v.integer?.map fun n => .uint (UInt64.ofInt n)
  | .object [(some "float", v)] => (Binary64.ofTagged? v).map .float
  | .object [(some "text", v)] => v.text?.map .text
  | .object [(some "bytes", v)] => v.hex?.map .bytes
  | .object [(some "object", .array members)] =>
    (FieldValue.membersOfTagged? members []).map .object
  | .object [(some "array", .array items)] => (FieldValue.itemsOfTagged? items).map .array
  | _ => none

def FieldValue.itemsOfTagged? : List Json → Option (List FieldValue)
  | [] => some []
  | item :: rest => do return (← ofTagged? item) :: (← itemsOfTagged? rest)

/-- Pairs of a name and a value, put one after the other into the fields `before`. -/
def FieldValue.membersOfTagged? : List Json → (before : Fields) → Option Fields
  | [], before => some before
  | .array [.string (some name), value] :: rest, before => do
    membersOfTagged? rest (Fields.insert before name (← ofTagged? value))
  | _ :: _, _ => none

end

/-- A type under a name for its kind. -/
def FieldType.toTagged : FieldType → Json
  | simple name => .record [("simple", .text name)]
  | array item => .record [("array", item.toTagged)]
  | object type => .record [("object", .text type.name)]

namespace Payload

/-- All there is to know of a payload, with the declared types of its fields. -/
def taggedMembers (schemas : SchemaSet) (p : Payload) : List (String × Json) :=
  let fieldType (type : RecordType) (field : FieldDecl) : Json :=
    .array [.text field.name, .optional FieldType.toTagged
      (FieldType.ofField? (schemas.get p.kind) type field.name)]
  [("kind", .text p.kind.name),
    ("code", p.code.toJson),
    ("resolved", .bool p.body?.isSome),
    ("name", .optional .text p.name?),
    ("label", .optional .text p.label?),
    ("description", .optional .text p.description?),
    ("fields", .optional (fun body => Fields.toTagged body.fields) p.body?),
    ("field_types", .array (p.body?.elim [] fun body => body.type.fields.map (fieldType body.type))),
    ("embedded_transaction", .optional .hex p.transaction?),
    ("embedded_action_script", .optional .hex p.actionScript?)]

end Payload

namespace Content

/-- The payload that is carried if it is of a kind. -/
def carriedOf? (c : Content) (kind : PayloadKind) : Option Payload :=
  c.carried?.filter (·.kind = kind)

/-- All there is to know of a payload and of what it carries. -/
def toTagged (schemas : SchemaSet) (c : Content) : Json :=
  let plain (p : Payload) : Json :=
    .record (p.taggedMembers schemas ++ [("message", .null), ("instrument", .null)])
  .record (c.payload.taggedMembers schemas ++ [
    ("message", .optional plain (c.carriedOf? .messages)),
    ("instrument", .optional plain (c.carriedOf? .instruments))])

end Content

end Utxo
