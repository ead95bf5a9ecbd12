import Utxo.Payload.Value
import Utxo.Schema.FieldType
import Utxo.Wire.Basic

/-!
# How values of simple types are written

The name of a simple type says what a value on the wire means. A value may be written in any way
that the wire has; where the type does not say what that means, it is an unsigned number or bytes.
-/

namespace Utxo

/-- What the names of simple types tell apart. -/
inductive Scalar where
  | bool
  | int
  | uint
  /-- A floating point number, 32 bits wide in an array. -/
  | float
  /-- A floating point number, 64 bits wide in an array. -/
  | float64
  /-- Like the one before, but 32 bits of it are an unsigned number. -/
  | double
  | text
  | other
  deriving DecidableEq, Repr

/-- A value as it stands on the wire. -/
inductive WireValue where
  | varint (n : UInt64)
  | fixed64 (n : UInt64)
  | fixed32 (n : UInt32)
  | delimited (b : Bytes)
  deriving DecidableEq, Repr

namespace Scalar

def textNames : List String := ["varchar", "fixedchar", "text", "string"]

def ofName (name : String) : Scalar :=
  if name = "bool" then bool
  else if name = "float64" then float64
  else if name = "double" then double
  else if name ∈ textNames then text
  else if "int".toList.isPrefixOf name.toList then int
  else if "uint".toList.isPrefixOf name.toList then uint
  else if "float".toList.isPrefixOf name.toList then float
  else other

/-- How the items of an array are written when they stand together without keys. -/
def packing? : Scalar → Option WireType
  | bool | int | uint => some .varint
  | float => some .fixed32
  | float64 | double => some .fixed64
  | text | other => none

def value : Scalar → WireValue → FieldValue
  | bool, .varint n => .bool (n != 0)
  | int, .varint n => .int n.toInt64
  | int, .fixed64 n => .int n.toInt64
  | int, .fixed32 n => .int n.toInt32.toInt64
  | float, .fixed32 n => .float (.ofBinary32 n)
  | float64, .fixed32 n => .float (.ofBinary32 n)
  | float, .fixed64 n => .float ⟨n⟩
  | float64, .fixed64 n => .float ⟨n⟩
  | double, .fixed64 n => .float ⟨n⟩
  | text, .delimited b => .text (Utf8.decode b)
  | _, .varint n => .uint n
  | _, .fixed64 n => .uint n
  | _, .fixed32 n => .uint n.toUInt64
  | _, .delimited b => .bytes b

end Scalar

/-- What a type says about single values. Only simple types say anything. -/
def FieldType.scalar : FieldType → Scalar
  | simple name => .ofName name
  | _ => .other

end Utxo
