import Utxo.Payload.Decoder

/-!
# Decoded payloads

A payload whose code is not in the schema is kept as its code alone. Some actions carry another
payload in their fields, and some messages a transaction or a script.
-/

namespace Utxo

/-- What the schema makes of a payload. -/
structure PayloadBody where
  type : RecordType
  fields : Fields

structure Payload where
  kind : PayloadKind
  code : PayloadCode
  body? : Option PayloadBody := none

/-- A payload that stands in the fields of another one. -/
structure CarriedPayload where
  kind : PayloadKind
  code : PayloadCode
  bytes : Bytes

namespace Payload

def name? (p : Payload) : Option String := p.body?.map (·.type.name)

def label? (p : Payload) : Option String := p.body?.map (·.type.label)

def field? (p : Payload) (name : String) : Option FieldValue := do
  Fields.get? (← p.body?).fields name

/-- The field that describes payloads of a type in one line. -/
def descriptionFields : List (String × String) :=
  [("ContractOffer", "ContractName"), ("ContractFormation", "ContractName")]

def description? (p : Payload) : Option String := do
  let field ← descriptionFields.lookup (← p.name?)
  (← p.field? field).text?

/-! ## What a payload carries -/

/-- The kind that an action of a type carries, and the fields with the code and the bytes. -/
def carriers : List (String × PayloadKind × String × String) := [
  ("Message", .messages, "MessageCode", "MessagePayload"),
  ("InstrumentCreation", .instruments, "InstrumentType", "InstrumentPayload"),
  ("InstrumentDefinition", .instruments, "InstrumentType", "InstrumentPayload")]

/-- Nothing is carried without a code; missing bytes are none. -/
def carried? (p : Payload) : Option CarriedPayload :=
  if p.kind = .actions then do
    let (kind, codeField, bytesField) ← carriers.lookup (← p.name?)
    let code ← (← p.field? codeField).code?
    return ⟨kind, code, ((p.field? bytesField).bind FieldValue.bytes?).getD []⟩
  else none

/-- The bytes of a message of one of the types. -/
def messageBytes? (p : Payload) (types : List String) (field : String) : Option Bytes := do
  if p.kind = .messages ∧ (← p.name?) ∈ types then (← p.field? field).bytes? else none

def transaction? (p : Payload) : Option Bytes :=
  p.messageBytes? ["Offer", "SignatureRequest"] "Payload"

def actionScript? (p : Payload) : Option Bytes :=
  p.messageBytes? ["SettlementRequest"] "Settlement"

end Payload

/-- A payload with what it carries. -/
structure Content where
  payload : Payload
  carried? : Option Payload := none

namespace Content

/-- The message that this is or that it carries. -/
def message? (c : Content) : Option Payload :=
  if c.payload.kind = .messages then some c.payload
  else c.carried?.filter (·.kind = .messages)

end Content

end Utxo
