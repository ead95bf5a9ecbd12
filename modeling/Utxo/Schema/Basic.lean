import Utxo.Schema.Code

/-!
# Schemas

A schema lists types of records. Payloads have one of the types that carry a code; fields may have
one of the others, by name, in arrays or alone.
-/

namespace Utxo

structure FieldDecl where
  name : String
  /-- The name of a type, with `[]` behind it for an array. -/
  type : String
  label : String := ""
  description : String := ""
  deriving DecidableEq, Repr

structure RecordType where
  code? : Option PayloadCode := none
  name : String
  label : String := ""
  description : String := ""
  fields : List FieldDecl := []
  deriving DecidableEq, Repr

namespace RecordType

def field? (type : RecordType) (name : String) : Option FieldDecl :=
  type.fields.find? (·.name == name)

/-- The field with a number. Numbers count from one. -/
def numbered? (type : RecordType) : (number : Nat) → Option FieldDecl
  | 0 => none
  | n + 1 => type.fields[n]?

def hasCode (type : RecordType) (code : PayloadCode) : Bool := type.code?.any (·.Matches code)

end RecordType

structure Schema where
  /-- The types of whole payloads. -/
  payloads : List RecordType := []
  /-- The types of fields. -/
  composites : List RecordType := []
  deriving DecidableEq, Repr

namespace Schema

def payload? (schema : Schema) (code : PayloadCode) : Option RecordType :=
  schema.payloads.find? (·.hasCode code)

def composite? (schema : Schema) (name : String) : Option RecordType :=
  schema.composites.find? (·.name == name)

end Schema

inductive PayloadKind where
  | actions
  | instruments
  | messages
  deriving DecidableEq, Repr

def PayloadKind.name : PayloadKind → String
  | actions => "actions"
  | instruments => "instruments"
  | messages => "messages"

structure SchemaSet where
  actions : Schema := {}
  instruments : Schema := {}
  messages : Schema := {}
  deriving DecidableEq, Repr

def SchemaSet.get (schemas : SchemaSet) : PayloadKind → Schema
  | .actions => schemas.actions
  | .instruments => schemas.instruments
  | .messages => schemas.messages

end Utxo
