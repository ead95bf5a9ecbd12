import Utxo.Json
import Utxo.Schema.Basic

/-! # Schemas as JSON -/

namespace Utxo

namespace PayloadCode

/-- A code is a string, or a number of 64 bits. -/
def ofJson? (j : Json) : Option PayloadCode :=
  (j.text?.map PayloadCode.mk).or ((j.natBelow? UInt64.size).map ofNat)

def toJson (code : PayloadCode) : Json := .text code.text

end PayloadCode

namespace FieldDecl

def ofJson? (j : Json) : Option FieldDecl := do
  let fields ← j.fields? ["name", "type", "label", "description"]
  let name ← Json.required fields "name" Json.text?
  let type ← Json.required fields "type" Json.text?
  let label ← Json.defaulted fields "label" "" Json.text?
  let description ← Json.defaulted fields "description" "" Json.text?
  return { name, type, label, description }

def toJson (field : FieldDecl) : Json := .record [
  ("name", .text field.name),
  ("type", .text field.type),
  ("label", .text field.label),
  ("description", .text field.description)]

end FieldDecl

namespace RecordType

def ofJson? (j : Json) : Option RecordType := do
  let fields ← j.fields? ["code", "name", "label", "description", "fields"]
  let code? ← Json.nullable fields "code" PayloadCode.ofJson?
  let name ← Json.required fields "name" Json.text?
  let label ← Json.defaulted fields "label" "" Json.text?
  let description ← Json.defaulted fields "description" "" Json.text?
  let declared ← Json.defaulted fields "fields" [] (Json.list? FieldDecl.ofJson?)
  return { code?, name, label, description, fields := declared }

def toJson (type : RecordType) : Json := .record [
  ("code", .optional PayloadCode.toJson type.code?),
  ("name", .text type.name),
  ("label", .text type.label),
  ("description", .text type.description),
  ("fields", .list FieldDecl.toJson type.fields)]

end RecordType

def Schema.ofJson? (j : Json) : Option Schema := do
  let fields ← j.fields? ["messages", "fieldTypes"]
  let payloads ← Json.defaulted fields "messages" [] (Json.list? RecordType.ofJson?)
  let composites ← Json.defaulted fields "fieldTypes" [] (Json.list? RecordType.ofJson?)
  return { payloads, composites }

end Utxo
