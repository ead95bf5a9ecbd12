import Utxo.Bytes

/-! # Where in a source a part was read -/

namespace Utxo

/-- The offsets from `start` up to, but not including, `stop`. -/
structure ByteRange where
  start : Nat := 0
  stop : Nat := 0
  deriving DecidableEq, Repr

namespace ByteRange

def length (r : ByteRange) : Nat := r.stop - r.start

def isEmpty (r : ByteRange) : Bool := r.length == 0

/-- The bytes of `source` at these offsets, if all of them are there. -/
def slice? (r : ByteRange) (source : Bytes) : Option Bytes :=
  if r.start ≤ r.stop ∧ r.stop ≤ source.length then some ((source.drop r.start).take r.length)
  else none

end ByteRange

end Utxo
