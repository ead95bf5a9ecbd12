import Utxo.Payload.Basic
import Utxo.Schema.Json

/-! # Decoded payloads as JSON -/

namespace Utxo

mutual

/-- Bytes are digits behind the word `bytes:`. -/
def FieldValue.toJson : FieldValue → Json
  | .bool v => .bool v
  | .int v => .integer v.toInt
  | .uint v => .nat v.toNat
  | .float v => .float v
  | .text v => .text v
  | .bytes v => .text ("bytes:" ++ Hex.encode v)
  | .object fields => .object (membersToJson fields)
  | .array items => .array (itemsToJson items)

def FieldValue.itemsToJson : List FieldValue → List Json
  | [] => []
  | item :: rest => item.toJson :: itemsToJson rest

def FieldValue.membersToJson : List (String × FieldValue) → List (Option String × Json)
  | [] => []
  | (name, value) :: rest => (some name, value.toJson) :: membersToJson rest

end

def Fields.toJson (fields : Fields) : Json := .object (FieldValue.membersToJson fields)

namespace Payload

def members (p : Payload) : List (String × Json) := [
  ("kind", .text p.kind.name),
  ("code", p.code.toJson),
  ("type", .optional .text p.name?),
  ("fields", .optional (fun body => Fields.toJson body.fields) p.body?),
  ("description", .optional .text p.description?)]

def toJson (p : Payload) : Json := .record p.members

end Payload

namespace Content

/-- What the member for a carried payload is called. -/
def carriedName : PayloadKind → String
  | .messages => "message"
  | .instruments => "instrument"
  | .actions => "action"

/-- What a payload carries is one more member of it. -/
def toJson (c : Content) : Json :=
  .record (c.payload.members ++ c.carried?.toList.map fun p => (carriedName p.kind, p.toJson))

end Content

end Utxo
