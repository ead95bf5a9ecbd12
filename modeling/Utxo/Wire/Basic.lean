/-!
# Messages

A message is fields one behind the other, each of them a number, a way its value is written, and
the value.
-/

namespace Utxo

/-- The ways a value is written. A group is fields between two keys of one number. -/
inductive WireType where
  | varint
  | fixed64
  | delimited
  | groupStart
  | groupEnd
  | fixed32
  deriving DecidableEq, Repr

namespace WireType

def code : WireType → Nat
  | varint => 0
  | fixed64 => 1
  | delimited => 2
  | groupStart => 3
  | groupEnd => 4
  | fixed32 => 5

def ofCode? : Nat → Option WireType
  | 0 => some varint
  | 1 => some fixed64
  | 2 => some delimited
  | 3 => some groupStart
  | 4 => some groupEnd
  | 5 => some fixed32
  | _ => none

theorem ofCode?_code (t : WireType) : ofCode? t.code = some t := by cases t <;> rfl

def name : WireType → String
  | varint => "Varint"
  | fixed64 => "SixtyFourBit"
  | delimited => "LengthDelimited"
  | groupStart => "StartGroup"
  | groupEnd => "EndGroup"
  | fixed32 => "ThirtyTwoBit"

end WireType

/-- What is wrong with a message. -/
inductive WireFault where
  | badNumber
  | badKey (key : UInt64)
  | badWireType (code : Nat)
  | noFieldNumber
  | underflow
  | strayGroupEnd
  | tooDeep
  | unexpectedType (actual expected : WireType)
  deriving DecidableEq, Repr

def WireFault.text : WireFault → String
  | badNumber => "invalid varint"
  | badKey key => s!"invalid key value: {key.toNat}"
  | badWireType code => s!"invalid wire type value: {code}"
  | noFieldNumber => "invalid tag value: 0"
  | underflow => "buffer underflow"
  | strayGroupEnd => "unexpected end group tag"
  | tooDeep => "recursion limit reached"
  | unexpectedType actual expected =>
    s!"invalid wire type: {actual.name} (expected {expected.name})"

/-- The fault, at a place in the message that may have a name. -/
def WireFault.message (fault : WireFault) (place : String := "") : String :=
  "failed to decode Protobuf message: " ++ place ++ fault.text

end Utxo
