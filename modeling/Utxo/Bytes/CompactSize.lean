import Utxo.Bytes.Cursor

/-!
# Compact sizes

A number of up to 64 bits in one, three, five or nine bytes. The first byte is the number itself
below `fd`, and otherwise says how wide the little-endian number behind it is. Writing takes the
shortest form; reading takes any.
-/

namespace Utxo.CompactSize

def length (v : UInt64) : Nat :=
  if v < 0xfd then 1 else if v ≤ 0xffff then 3 else if v ≤ 0xffffffff then 5 else 9

def encode (v : UInt64) : Bytes :=
  if v < 0xfd then Bytes.ofNatLE 1 v.toNat
  else if v ≤ 0xffff then 0xfd :: Bytes.ofNatLE 2 v.toNat
  else if v ≤ 0xffffffff then 0xfe :: Bytes.ofNatLE 4 v.toNat
  else 0xff :: Bytes.ofNatLE 8 v.toNat

def read : Reader Truncated UInt64 := do
  let first ← Reader.byte
  if first = 0xff then Reader.u64LE
  else if first = 0xfe then return (← Reader.u32LE).toUInt64
  else if first = 0xfd then return (← Reader.u16LE).toUInt64
  else return first.toUInt64

/-- The number at the start of `data` and how many bytes it takes there. -/
def decode (data : Bytes) : Except Truncated (UInt64 × Nat) :=
  match read.runFrom (.start data) with
  | (.ok v, c) => .ok (v, c.position)
  | (.error e, _) => .error e

/-- The size of a list, as it is written in front of the list. -/
def ofLength {α : Type} (items : List α) : UInt64 := UInt64.ofNat items.length

/-- A byte string behind its length. -/
def frame (b : Bytes) : Bytes := encode (ofLength b) ++ b

def readFrame : Reader Truncated Bytes := do
  Reader.bytes (← read).toNat

end Utxo.CompactSize
