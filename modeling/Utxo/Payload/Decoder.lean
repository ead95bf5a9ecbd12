import Utxo.Payload.Error
import Utxo.Payload.Scalar
import Utxo.Wire.Skip

/-!
# Payloads on the wire

The fields of a record are the fields of a message, numbered from one in the order of the record's
type. A field that comes again replaces the value it had, or adds items to it if it is an array; a
number that the type does not have is passed over. Records in fields are messages in bytes, so
reading them is reading a payload one level deeper.
-/

namespace Utxo

/-- Reads a payload whose type, with the types of its fields, is in a schema. -/
abbrev PayloadDecoder := Schema → RecordType → Bytes → Except PayloadError Fields

/-- Reads a record inside of a payload. -/
abbrev RecordDecoder := RecordType → Bytes → Except PayloadError Fields

namespace WireValue

def takeFor (field : String) (n : Nat) : WireReader PayloadError Bytes :=
  (WireReader.take n).blame (.overrun field)

def read (field : String) : WireType → WireReader PayloadError WireValue
  | .varint => do return .varint (← Varint.read.blame .wire)
  | .fixed64 => do return .fixed64 (UInt64.ofNat (Bytes.toNatLE (← takeFor field 8)))
  | .fixed32 => do return .fixed32 (UInt32.ofNat (Bytes.toNatLE (← takeFor field 4)))
  | .delimited => do
    let n ← Varint.read.blame .wire
    return .delimited (← takeFor field n.toNat)
  | t => throw (.group field t)

theorem takesAtLeast_read (field : String) (t : WireType) :
    WireReader.TakesAtLeast 1 (read field t) := by
  have hvarint := Varint.takesAtLeast_read.blame PayloadError.wire
  have htake := fun n => (WireReader.takesAtLeast_take n).blame (PayloadError.overrun field)
  cases t
  · exact hvarint.then fun _ => WireReader.takesAtLeast_pure _
  · exact ((htake 8).mono (by decide)).then fun _ => WireReader.takesAtLeast_pure _
  · exact hvarint.then fun _ =>
      ((htake _).mono (Nat.zero_le _)).then fun _ => WireReader.takesAtLeast_pure _
  · exact WireReader.takesAtLeast_throw _ _
  · exact WireReader.takesAtLeast_throw _ _
  · exact ((htake 4).mono (by decide)).then fun _ => WireReader.takesAtLeast_pure _

end WireValue

namespace RecordDecoder

/-- A value of a type that is not an array. -/
def value (nested : RecordDecoder) : FieldType → WireValue → Except PayloadError FieldValue
  | .object type, .delimited b => do return .object (← nested type b)
  | type, v => return type.scalar.value v

/-- One more item of an array whose items stand together, before the `seen` ones. -/
def packedItem (field : String) (scalar : Scalar) (packing : WireType)
    (seen : List FieldValue) : WireReader PayloadError (List FieldValue) := do
  return scalar.value (← WireValue.read field packing) :: seen

theorem takesAtLeast_packedItem (field : String) (scalar : Scalar) (packing : WireType)
    (seen : List FieldValue) :
    WireReader.TakesAtLeast 1 (packedItem field scalar packing seen) :=
  (WireValue.takesAtLeast_read field packing).then fun _ => WireReader.takesAtLeast_pure _

/-- The items of an array that stand together in `b`. -/
def packedItems (field : String) (scalar : Scalar) (packing : WireType) (b : Bytes) :
    Except PayloadError (List FieldValue) :=
  List.reverse <$> WireReader.foldToEnd (packedItem field scalar packing)
    (takesAtLeast_packedItem field scalar packing) [] b

/-- The items of an array that one value brings: all that stand together, or one. -/
def items (nested : RecordDecoder) (field : String) (item : FieldType) (v : WireValue) :
    Except PayloadError (List FieldValue) :=
  match v, item.scalar.packing? with
  | .delimited b, some packing => packedItems field item.scalar packing b
  | v, _ => do return [← nested.value item v]

/-- The record with one more value for a field. -/
def update (nested : RecordDecoder) (schema : Schema) (fields : Fields) (field : FieldDecl)
    (v : WireValue) : Except PayloadError Fields :=
  match FieldType.ofName schema field.type with
  | .array item => do return Fields.extend fields field.name (← nested.items field.name item v)
  | type => do return Fields.insert fields field.name (← nested.value type v)

def readField (nested : RecordDecoder) (schema : Schema) (type : RecordType) (fields : Fields) :
    WireReader PayloadError Fields := do
  let key ← WireKey.read.blame .wire
  match type.numbered? key.number with
  | none =>
    (Wire.skip key).blame .wire
    return fields
  | some field =>
    let v ← WireValue.read field.name key.wireType
    Stateful.done (nested.update schema fields field v)

theorem takesAtLeast_readField (nested : RecordDecoder) (schema : Schema) (type : RecordType)
    (fields : Fields) : WireReader.TakesAtLeast 1 (nested.readField schema type fields) := by
  refine (WireKey.takesAtLeast_read.blame _).then fun key => ?_
  split
  · exact ((Wire.takesAtLeast_skip key).blame _).then fun _ => WireReader.takesAtLeast_pure _
  · exact ((WireValue.takesAtLeast_read _ _).mono (Nat.zero_le 1)).then
      fun _ => WireReader.takesAtLeast_done _

/-- Reads a record, with `nested` for the records in its fields. -/
def around (nested : RecordDecoder) (schema : Schema) : RecordDecoder := fun type b =>
  WireReader.foldToEnd (nested.readField schema type) (nested.takesAtLeast_readField schema type)
    [] b

/-- Reads records that stand in each other up to `levels` deep. The `limit` is what an error
tells. -/
def within (schema : Schema) (limit : Nat) : (levels : Nat) → RecordDecoder
  | 0 => fun _ _ => .error (.tooDeep limit)
  | levels + 1 => (within schema limit levels).around schema

end RecordDecoder

/-- How deep records may stand in a payload unless it is told otherwise. -/
def PayloadDecoder.defaultLimit : Nat := 32

/-- The decoder for payloads with up to `limit` levels of records below the payload itself. -/
def PayloadDecoder.wire (limit : Nat := PayloadDecoder.defaultLimit) : PayloadDecoder :=
  fun schema => RecordDecoder.within schema limit (limit + 1)

end Utxo
