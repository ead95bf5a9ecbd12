import Utxo.Wire.Varint

/-!
# Keys of fields

A key is one number, for the field and for the way its value is written.
-/

namespace Utxo

structure WireKey where
  number : Nat
  wireType : WireType
  deriving DecidableEq, Repr

namespace WireKey

def encode (key : WireKey) : Bytes := Varint.encode (8 * key.number + key.wireType.code)

def ofNumber (n : UInt64) : Except WireFault WireKey :=
  if UInt32.size ≤ n.toNat then .error (.badKey n)
  else
    match WireType.ofCode? (n.toNat % 8) with
    | none => .error (.badWireType (n.toNat % 8))
    | some wireType =>
      if n.toNat / 8 = 0 then .error .noFieldNumber else .ok ⟨n.toNat / 8, wireType⟩

def read : WireReader WireFault WireKey := do
  let n ← Varint.read
  Stateful.done (ofNumber n)

theorem takesAtLeast_read : WireReader.TakesAtLeast 1 read :=
  Varint.takesAtLeast_read.then fun _ => WireReader.takesAtLeast_done _

end WireKey

/-- A field whose value is bytes behind their length. -/
def Wire.encodeDelimited (number : Nat) (b : Bytes) : Bytes :=
  WireKey.encode ⟨number, .delimited⟩ ++ Varint.encode b.length ++ b

/-- A field whose value is a number. -/
def Wire.encodeVarint (number n : Nat) : Bytes :=
  WireKey.encode ⟨number, .varint⟩ ++ Varint.encode n

end Utxo
